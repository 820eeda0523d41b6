import Mathlib
import RegexInsight.Proofs.Pattern.LiteralOrder
import RegexInsight.Proofs.Pattern.Reading

/-! # Verbose mode

    Verbose mode drops whitespace and comments from what it holds for, and
    nothing else.  What is left of a text is said here one character at a
    time, with a flag for an open comment; the parser looks for the end of a
    comment at once.  A text without marks is read as the literals that are
    left of it, behind the flags up to its end and in a group with flags up
    to the end of the group. -/

namespace RegexInsight

/-! ## Section 1: What is left of a text -/

namespace Verbose

/-- What is left of a text, in front of which a comment is open or is not. -/
def strippedFrom : Bool → Text → Text
  | _, [] => []
  | true, c :: rest => strippedFrom (c != '\n') rest
  | false, c :: rest =>
    if c == '#' then strippedFrom true rest
    else if isSpace c then strippedFrom false rest
    else c :: strippedFrom false rest

/-- A text without whitespace and comments. -/
def stripped (text : Text) : Text :=
  strippedFrom false text

/-- Whether a comment is open behind a text, from whether one is in front of
    it. -/
def isOpenBehind : Bool → Text → Bool
  | isOpen, [] => isOpen
  | true, c :: rest => isOpenBehind (c != '\n') rest
  | false, c :: rest => isOpenBehind (c == '#') rest

/-- Whether a comment is still open at the end of a text. -/
def endsInComment (text : Text) : Bool :=
  isOpenBehind false text

variable {comment : Text}

theorem strippedFrom_comment (h : '\n' ∉ comment) (rest : Text) :
    strippedFrom true (comment ++ rest) = strippedFrom true rest := by
  induction comment with
  | nil => rfl
  | cons c more ih =>
    obtain ⟨hc, hmore⟩ := List.ne_and_not_mem_of_not_mem_cons h
    rw [List.cons_append, strippedFrom, bne_iff_ne.mpr hc.symm]
    exact ih hmore

theorem isOpenBehind_comment (h : '\n' ∉ comment) (rest : Text) :
    isOpenBehind true (comment ++ rest) = isOpenBehind true rest := by
  induction comment with
  | nil => rfl
  | cons c more ih =>
    obtain ⟨hc, hmore⟩ := List.ne_and_not_mem_of_not_mem_cons h
    rw [List.cons_append, isOpenBehind, bne_iff_ne.mpr hc.symm]
    exact ih hmore

theorem stripped_comment (h : '\n' ∉ comment) (rest : Text) :
    stripped ('#' :: comment ++ '\n' :: rest) = stripped rest := by
  rw [List.cons_append, stripped, strippedFrom, if_pos (beq_self_eq_true _), strippedFrom_comment h]
  rfl

theorem stripped_last (h : '\n' ∉ comment) : stripped ('#' :: comment) = [] := by
  have hall := strippedFrom_comment h []
  rw [List.append_nil] at hall
  rw [stripped, strippedFrom, if_pos (beq_self_eq_true _), hall]
  rfl

theorem stripped_space {c : Char} (hhash : c ≠ '#') (hspace : isSpace c = true) (rest : Text) :
    stripped (c :: rest) = stripped rest := by
  rw [stripped, strippedFrom, if_neg (by simpa using hhash), if_pos hspace]
  rfl

theorem stripped_other {c : Char} (hhash : c ≠ '#') (hspace : ¬ isSpace c = true) (rest : Text) :
    stripped (c :: rest) = c :: stripped rest := by
  rw [stripped, strippedFrom, if_neg (by simpa using hhash), if_neg hspace]
  rfl

theorem endsInComment_comment (h : '\n' ∉ comment) (rest : Text) :
    endsInComment ('#' :: comment ++ '\n' :: rest) = endsInComment rest := by
  rw [List.cons_append, endsInComment, isOpenBehind, beq_self_eq_true, isOpenBehind_comment h]
  rfl

theorem endsInComment_last (h : '\n' ∉ comment) : endsInComment ('#' :: comment) = true := by
  have hall := isOpenBehind_comment h []
  rwa [List.append_nil] at hall

theorem endsInComment_other {c : Char} (hhash : c ≠ '#') (rest : Text) :
    endsInComment (c :: rest) = endsInComment rest := by
  rw [endsInComment, isOpenBehind, beq_false_of_ne hhash]
  rfl

end Verbose

/-! ## Section 2: Reading literals -/

namespace ParserState

variable {s t u : ParserState} {c : Char} {rest tail text values more comment : Text}

/-- What the literals read so far spell. -/
def spelled (s : ParserState) : List CodePoint :=
  s.literals.filterMap fun n => n.label.literal?

/-- Some steps in one group read the literals `values` and stop before
    `tail`. -/
structure Spells (s t : ParserState) (values tail : Text) : Prop where
  runs : s.RunsTo t
  rest : t.cur.rest = tail
  opener : t.frame.opener = s.frame.opener
  modes : t.frame.modes = s.frame.modes
  outer : t.outer = s.outer
  references : t.references = s.references
  spelled : t.spelled = s.spelled ++ values.map Char.toNat

theorem Spells.refl (hrest : s.cur.rest = tail) : s.Spells s [] tail where
  runs := .refl
  rest := hrest
  opener := rfl
  modes := rfl
  outer := rfl
  references := rfl
  spelled := (List.append_nil _).symm

theorem Spells.trans (hfirst : s.Spells t values tail) (hsecond : t.Spells u more rest) :
    s.Spells u (values ++ more) rest where
  runs := hfirst.runs.trans hsecond.runs
  rest := hsecond.rest
  opener := hsecond.opener.trans hfirst.opener
  modes := hsecond.modes.trans hfirst.modes
  outer := hsecond.outer.trans hfirst.outer
  references := hsecond.references.trans hfirst.references
  spelled := by
    rw [hsecond.spelled, hfirst.spelled, List.map_append, List.append_assoc]

/-- A character without meaning that is not skipped. -/
theorem spells_literal (hrest : s.cur.rest = c :: tail) (hmark : c ∉ marks)
    (hskip : s.skipped? = none) : ∃ t, s.Spells t [c] tail := by
  refine ⟨s.readOne (s.frame.modes.literal c.toNat), ?_⟩
  exact {
    runs := .single ⟨c, tail, hrest, (step_of_not_skipped hskip).trans
      (readAt_of_not_mark hrest hmark)⟩
    rest := by
      show (s.cur.advance 1).rest = tail
      rw [Cursor.advance_rest, hrest]
      rfl
    opener := rfl
    modes := rfl
    outer := rfl
    references := rfl
    spelled := by
      show (s.addLeaf _).spelled = _
      rw [ParserState.spelled, literals_addLeaf _ (by rfl), List.filterMap_append]
      rfl }

/-- What verbose mode skips. -/
theorem spells_skipped {cur : Cursor} (hrest : s.cur.rest = c :: rest)
    (hskip : s.skipped? = some cur) (htail : cur.rest = tail) : ∃ t, s.Spells t [] tail := by
  refine ⟨s.moveTo cur, ?_⟩
  exact {
    runs := .single ⟨c, rest, hrest, by rw [step, hskip]⟩
    rest := htail
    opener := rfl
    modes := rfl
    outer := rfl
    references := rfl
    spelled := (List.append_nil _).symm }

/-- Without verbose mode all of a text is read. -/
theorem spells_text (hverbose : s.frame.modes.verbose = false)
    (hrest : s.cur.rest = text ++ tail) (hmarks : ∀ c ∈ text, c ∉ marks) :
    ∃ t, s.Spells t text tail := by
  induction text generalizing s with
  | nil => exact ⟨s, .refl hrest⟩
  | cons c rest ih =>
    obtain ⟨hmark, hmarks⟩ := List.forall_mem_cons.mp hmarks
    obtain ⟨t, ht⟩ := spells_literal hrest hmark (skipped?_of_not_verbose hverbose)
    obtain ⟨u, hu⟩ := ih (ht.modes ▸ hverbose) ht.rest hmarks
    exact ⟨u, ht.trans hu⟩

/-! ## Section 3: Reading in verbose mode -/

section Verbose

open Verbose

variable (hverbose : s.frame.modes.verbose = true)

include hverbose

theorem skipped?_space (hrest : s.cur.rest = c :: rest) (hc : isSpace c = true) :
    s.skipped? = some (s.cur.advance 1) := by
  unfold skipped?
  rw [hrest]
  simp [hverbose, hc]

theorem skipped?_comment (hrest : s.cur.rest = '#' :: comment ++ '\n' :: tail)
    (hcomment : '\n' ∉ comment) :
    ∃ cur, s.skipped? = some cur ∧ cur.rest = tail := by
  obtain ⟨after, hafter, hfound⟩ := Cursor.upTo?_of_append hrest
    (List.not_mem_cons_of_ne_of_not_mem (by decide) hcomment)
  refine ⟨after, ?_, hafter⟩
  unfold skipped?
  rw [hrest, hfound]
  simp [hverbose, show isSpace '#' = false by decide]

/-- A comment that nothing ends goes on to the end of the pattern. -/
theorem skipped?_last (hrest : s.cur.rest = '#' :: comment) (hcomment : '\n' ∉ comment) :
    ∃ cur, s.skipped? = some cur ∧ cur.rest = [] := by
  have hnone : s.cur.upTo? '\n' = none := by
    refine Option.eq_none_iff_forall_ne_some.mpr fun found hfound => ?_
    obtain ⟨-, ⟨more, hmore⟩, -⟩ := Cursor.upTo?_eq_some_iff.mp hfound
    have hmem : '\n' ∈ '#' :: comment := by
      rw [← hrest, hmore]
      simp
    exact (List.mem_cons.mp hmem).elim (by decide) hcomment
  refine ⟨s.cur.advance s.cur.rest.length, ?_, by simp⟩
  unfold skipped?
  rw [hnone, hrest]
  simp [hverbose, show isSpace '#' = false by decide]

/-- In verbose mode, what is left of a text is read; a comment that is open
    at its end takes what follows with it. -/
theorem spells_stripped (hrest : s.cur.rest = text ++ tail) (hmarks : ∀ c ∈ text, c ∉ marks)
    (hend : endsInComment text = false ∨ tail = []) :
    ∃ t, s.Spells t (stripped text) tail := by
  -- a comment is skipped in one step, so the induction is on the length
  induction hlength : text.length using Nat.strong_induction_on generalizing s text with
  | _ n ih =>
    subst hlength
    match text with
    | [] => exact ⟨s, .refl hrest⟩
    | c :: rest =>
      have hmore : ∀ {t values more}, s.Spells t values (more ++ tail) → more.length ≤ rest.length →
          (∀ d ∈ more, d ∈ rest) → (endsInComment more = false ∨ tail = []) →
          ∃ u, s.Spells u (values ++ stripped more) tail := by
        intro t values more ht hle hsub hend
        obtain ⟨u, hu⟩ := ih more.length (by simp only [List.length_cons]; omega)
          (ht.modes ▸ hverbose) ht.rest
          (fun d hd => hmarks d (List.mem_cons_of_mem _ (hsub d hd))) hend rfl
        exact ⟨u, ht.trans hu⟩
      by_cases hhash : c = '#'
      · subst hhash
        by_cases hnewline : '\n' ∈ rest
        · obtain ⟨comment, more, rfl, hcomment⟩ := List.eq_append_cons_of_mem hnewline
          obtain ⟨cur, hskip, htail⟩ := skipped?_comment hverbose (by simpa using hrest) hcomment
          obtain ⟨t, ht⟩ := spells_skipped (by simpa using hrest) hskip htail
          rw [← List.cons_append, endsInComment_comment hcomment] at hend
          rw [← List.cons_append, stripped_comment hcomment]
          exact hmore ht (by simp only [List.length_append, List.length_cons]; omega)
            (by simp +contextual) hend
        · obtain rfl : tail = [] := hend.resolve_left (by simp [endsInComment_last hnewline])
          rw [List.append_nil] at hrest
          obtain ⟨cur, hskip, htail⟩ := skipped?_last hverbose hrest hnewline
          rw [stripped_last hnewline]
          exact spells_skipped hrest hskip htail
      · rw [endsInComment_other hhash] at hend
        by_cases hspace : isSpace c = true
        · obtain ⟨t, ht⟩ := spells_skipped hrest (skipped?_space hverbose hrest hspace)
            (congrArg (List.drop 1) hrest)
          rw [stripped_space hhash hspace]
          exact hmore ht (Nat.le_refl _) (fun _ => id) hend
        · obtain ⟨t, ht⟩ := spells_literal hrest (hmarks c List.mem_cons_self)
            (skipped?_eq_none hrest (Bool.eq_false_iff.mpr hspace) hhash)
          rw [stripped_other hhash hspace]
          exact hmore ht (Nat.le_refl _) (fun _ => id) hend

end Verbose

/-! ## Section 4: Groups with flags -/

/-- Closing a group reads no literal and brings the flags around it back. -/
theorem exists_closing_of_group {kind : GroupKind} {frame : Frame} {outer : List Frame}
    (hrest : s.cur.rest = ')' :: tail) (hopener : s.frame.opener = .group kind)
    (houter : s.outer = frame :: outer) :
    ∃ t, Next s t ∧ t.cur.rest = tail ∧ t.frame.opener = frame.opener ∧
      t.frame.modes = frame.modes ∧ t.outer = outer ∧ t.references = s.references ∧
      t.spelled = s.spelled := by
  obtain ⟨node, count, hclose, -, -⟩ :=
    s.frame.exists_close_of_group hopener s.count (s.cur.advance 1).pos
  refine ⟨_, next_closing hrest houter hclose, ?_, rfl, rfl, rfl, rfl, ?_⟩
  · rw [Cursor.advance_rest, hrest]
    rfl
  · rw [spelled, spelled, literals_close houter hclose]

/-- What was read into the pattern itself, without references, can end. -/
theorem exists_finish (hroot : s.frame.opener = .root) (houter : s.outer = [])
    (hreferences : s.references = []) : ∃ root, s.finish = .ok root := by
  refine ⟨_, finish_eq_ok_iff.mpr ⟨houter, ⟨_, s.frame.close_of_root hroot _ _⟩, ?_⟩⟩
  rw [checkReferences, hreferences]
  rfl

/-- The state behind `(?x:`. -/
def behindVerboseGroup (rest : Text) : ParserState :=
  (initial ("(?x:".toList ++ rest)).enter (.group (.nonCapturing (some ['x']))) 0
    ⟨false, false, true⟩ ⟨4, rest⟩

theorem next_verboseGroup (rest : Text) :
    Next (initial ("(?x:".toList ++ rest)) (behindVerboseGroup rest) :=
  ⟨'(', _, rfl, rfl⟩

/-- The state behind `(?x)`. -/
def behindVerboseFlags (rest : Text) : ParserState :=
  ({ initial ("(?x)".toList ++ rest) with
    frame := .opened .root 0 ⟨false, false, true⟩ }.addLeaf ⟨.flags ['x'], 0, 4⟩).moveTo ⟨4, rest⟩

theorem next_verboseFlags (rest : Text) :
    Next (initial ("(?x)".toList ++ rest)) (behindVerboseFlags rest) :=
  ⟨'(', _, rfl, rfl⟩

end ParserState

/-! ## Section 5: Patterns -/

namespace Pattern

/-- What a whole run reads is what the pattern spells. -/
theorem exists_spelled {text : Text} {s t : ParserState} {values : Text}
    (hruns : (ParserState.initial text).RunsTo s) (hroot : s.frame.opener = .root)
    (houter : s.outer = []) (hreferences : s.references = []) (ht : s.Spells t values []) :
    ∃ p, Pattern.parse text = .ok p ∧ p.spelled = s.spelled ++ values.map Char.toNat := by
  have hall := hruns.trans ht.runs
  obtain ⟨root, hfinish⟩ := ParserState.exists_finish (ht.opener.trans hroot)
    (ht.outer.trans houter) (ht.references.trans hreferences)
  have hparse := Pattern.parse_eq_ok_iff.mpr ⟨t, root, hall, ht.rest, hfinish, rfl⟩
  refine ⟨_, hparse, ?_⟩
  rw [Pattern.spelled_eq hparse, ParserState.literals_of_finish (.of_runsTo hall) hfinish]
  exact ht.spelled

/-- Verbose mode drops whitespace and comments, and only as far as it
    holds: in a group with flags up to the end of the group, behind flags
    of their own up to the end of the pattern. -/
theorem spelled_verbose {s t : Text} (hs : ∀ c ∈ s, c ∉ ParserState.marks)
    (ht : ∀ c ∈ t, c ∉ ParserState.marks) :
    (Verbose.endsInComment s = false →
      ∃ p, Pattern.parse ("(?x:".toList ++ s ++ ")".toList ++ t) = .ok p ∧
        p.spelled = (Verbose.stripped s ++ t).map Char.toNat) ∧
    ∃ p, Pattern.parse ("(?x)".toList ++ s) = .ok p ∧
      p.spelled = (Verbose.stripped s).map Char.toNat := by
  constructor
  case left =>
    intro hend
    rw [List.append_assoc, List.append_assoc]
    obtain ⟨inside, hinside⟩ := ParserState.spells_stripped
      (s := ParserState.behindVerboseGroup (s ++ (")".toList ++ t))) rfl rfl hs (.inl hend)
    -- the closing parenthesis ends the mode
    obtain ⟨behind, hclose, hrest, hroot, hmodes, houter, hreferences, hspelled⟩ :=
      ParserState.exists_closing_of_group hinside.rest hinside.opener hinside.outer
    obtain ⟨last, hlast⟩ := ParserState.spells_text (by rw [hmodes]; rfl)
      (hrest.trans (List.append_nil t).symm) ht
    have hruns := ((Relation.ReflTransGen.single (ParserState.next_verboseGroup _)).trans
      hinside.runs).tail hclose
    obtain ⟨p, hp, hvalues⟩ := exists_spelled hruns hroot houter
      (hreferences.trans hinside.references) hlast
    refine ⟨p, hp, ?_⟩
    rw [hvalues, hspelled, hinside.spelled, List.map_append]
    rfl
  case right =>
    obtain ⟨last, hlast⟩ := ParserState.spells_stripped (s := ParserState.behindVerboseFlags s) rfl
      (List.append_nil s).symm hs (.inr rfl)
    obtain ⟨p, hp, hvalues⟩ :=
      exists_spelled (.single (ParserState.next_verboseFlags s)) rfl rfl rfl hlast
    exact ⟨p, hp, hvalues⟩

/-- A comment up to the end of its line in the group, and a space and a `#`
    behind it. -/
theorem spelled_verbose_of_comment :
    ∃ p, Pattern.parse "(?x:a b#c\nd) #".toList = .ok p ∧ p.spelled = "abd #".toList.map Char.toNat :=
  (spelled_verbose (s := ['a', ' ', 'b', '#', 'c', '\n', 'd']) (t := [' ', '#'])
    (by simp [ParserState.marks]) (by simp [ParserState.marks])).1 (by decide)

end Pattern

end RegexInsight
