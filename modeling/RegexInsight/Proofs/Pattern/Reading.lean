import Mathlib
import RegexInsight.Proofs.Pattern.Expression

/-! # Reading what was printed

    The steps that the parser takes over printed text while no flag is in
    force.  Each piece of syntax is one step: it appends one leaf, opens
    one frame, begins one branch, closes one frame or puts one quantifier
    over the last item, and stops exactly behind the piece. -/

namespace RegexInsight

/-! ## Section 1: Characters -/

/-- Two tables of characters without a common one. -/
theorem not_contains_of_apart {a b : CharSet} {c : CodePoint}
    (h : (a.intervals.all fun i => b.intervals.all fun j =>
      Nat.blt i.hi j.lo || Nat.blt j.hi i.lo) = true) (hc : a.contains c = true) :
    b.contains c = false := by
  obtain ⟨i, hi, hin⟩ := List.any_eq_true.mp hc
  refine List.any_eq_false.mpr fun j hj hjn => ?_
  have hapart := List.all_eq_true.mp (List.all_eq_true.mp h i hi) j hj
  simp only [Interval.contains, Bool.and_eq_true, decide_eq_true_eq, CodePoint] at hin hjn
  simp only [Bool.or_eq_true, Nat.blt_eq] at hapart
  omega

theorem isDigitChar_of_isLetter {c : Char} (h : isLetter c = true) : isDigitChar c = false := by
  have hdecimal : Unicode.decimalDigits.contains c.toNat = false :=
    not_contains_of_apart (by decide +kernel) h
  have hother : Unicode.nonDecimalDigits.contains c.toNat = false :=
    not_contains_of_apart (by decide +kernel) h
  simp [isDigitChar, isDecimal, hdecimal, hother]

/-- A name is not taken for a number. -/
theorem isDigitText_of_isGroupName {name : Text} (h : isGroupName name = true) :
    isDigitText name = false := by
  cases name with
  | nil => rfl
  | cons c rest =>
    obtain ⟨hfirst, -⟩ := Bool.and_eq_true_iff.mp h
    have hdigit : isDigitChar c = false := by
      rcases Bool.or_eq_true_iff.mp hfirst with hletter | hunderscore
      · exact isDigitChar_of_isLetter hletter
      · obtain rfl := eq_of_beq hunderscore
        decide +kernel
    simp [isDigitText, hdigit]

/-- A delimiter does not occur in a name. -/
theorem not_mem_of_isGroupName {name : Text} {c : Char} (h : isGroupName name = true)
    (halpha : isAlphanumeric c = false) (hunderscore : c ≠ '_') : c ∉ name := by
  intro hmem
  cases name with
  | nil => exact List.not_mem_nil hmem
  | cons d rest =>
    have hc := List.all_eq_true.mp (Bool.and_eq_true_iff.mp h).2 c hmem
    simp [halpha, hunderscore] at hc

theorem not_mem_toDigits {n : Nat} {c : Char} (h : isDecimal c = false) :
    c ∉ Nat.toDigits 10 n := by
  intro hmem
  rw [Numeral.isDecimal_of_mem_toDigits hmem] at h
  exact Bool.noConfusion h

namespace ParserState

/-! ## Section 2: Steps without flags -/

variable {s : ParserState} {tail : Text}

/-- Without flags nothing is skipped. -/
theorem step_of_modes (hmodes : s.frame.modes = .none) (c : Char) : s.step c = s.readAt c :=
  step_of_not_skipped (skipped?_of_not_verbose (by rw [hmodes]; rfl))

theorem next_of_readAt {s' : ParserState} {c : Char} (hmodes : s.frame.modes = .none)
    (hrest : s.cur.rest = c :: tail) (h : s.readAt c = .ok s') : Next s s' :=
  ⟨c, tail, hrest, (step_of_modes hmodes c).trans h⟩

/-- One step appends a leaf and stops before `tail`; `references` are the
    references after it. -/
def ReadsLeaf (s : ParserState) (label : Label) (references : List Reference) (tail : Text) :
    Prop :=
  ∃ start stop cur, cur.rest = tail ∧
    Next s (({ s with references := references }.addLeaf ⟨label, start, stop⟩).moveTo cur)

/-! ## Section 3: Leaves of one character -/

/-- What is no mark of its own is read as a leaf of one character. -/
theorem readsLeaf_of_readOne {c : Char} {label : Label} (hmodes : s.frame.modes = .none)
    (hrest : s.cur.rest = c :: tail) (h : s.readAt c = .ok (s.readOne label)) :
    s.ReadsLeaf label s.references tail :=
  ⟨s.cur.pos, s.cur.pos + 1, s.cur.advance 1, by rw [Cursor.advance_rest, hrest]; rfl,
    next_of_readAt hmodes hrest h⟩

/-- The characters with which something other than a literal begins. -/
def marks : List Char :=
  ['(', ')', '|', '*', '+', '?', '\x7b', '[', '\\', '.', '^', '$']

theorem readAt_of_not_mark {c : Char} (hrest : s.cur.rest = c :: tail) (hmark : c ∉ marks) :
    s.readAt c = .ok (s.readOne (s.frame.modes.literal c.toNat)) := by
  simp only [marks, List.mem_cons, List.not_mem_nil, or_false, not_or] at hmark
  have hquantifier : Bounds.read? s.cur = .ok none := read?_eq_none hrest (by simp [hmark])
  simp only [readAt, hquantifier]
  simp [hmark]
  rfl

theorem readAt_of_not_special {c : Char} (hrest : s.cur.rest = c :: tail)
    (hspecial : c ∉ Literal.special) :
    s.readAt c = .ok (s.readOne (s.frame.modes.literal c.toNat)) :=
  readAt_of_not_mark hrest fun hmark =>
    hspecial ((show marks ⊆ Literal.special by decide) hmark)

theorem readsLeaf_dot (hmodes : s.frame.modes = .none) (hrest : s.cur.rest = '.' :: tail) :
    s.ReadsLeaf Modes.none.dot s.references tail := by
  refine readsLeaf_of_readOne hmodes hrest ?_
  have hquantifier : Bounds.read? s.cur = .ok none := read?_eq_none hrest (by decide)
  simp only [readAt, hquantifier, ← hmodes]
  rfl

theorem readsLeaf_lineStart (hmodes : s.frame.modes = .none) (hrest : s.cur.rest = '^' :: tail) :
    s.ReadsLeaf (.anchor .lineStart) s.references tail := by
  refine readsLeaf_of_readOne hmodes hrest ?_
  have hquantifier : Bounds.read? s.cur = .ok none := read?_eq_none hrest (by decide)
  simp only [readAt, hquantifier]
  rfl

theorem readsLeaf_lineEnd (hmodes : s.frame.modes = .none) (hrest : s.cur.rest = '$' :: tail) :
    s.ReadsLeaf (.anchor .lineEnd) s.references tail := by
  refine readsLeaf_of_readOne hmodes hrest ?_
  have hquantifier : Bounds.read? s.cur = .ok none := read?_eq_none hrest (by decide)
  simp only [readAt, hquantifier]
  rfl

/-! ## Section 4: Escapes -/

/-- The references after an escape. -/
def referencesAfter (s : ParserState) : Option Text → List Reference
  | none => s.references
  | some target => ⟨target, s.cur.pos⟩ :: s.references

theorem readsLeaf_of_escape {rest : Text} {label : Label} {start stop : Nat}
    {reference : Option Text} {after : Cursor} (hmodes : s.frame.modes = .none)
    (hrest : s.cur.rest = '\\' :: rest) (hafter : after.rest = tail)
    (h : Escape.read .none s.groups s.cur = .ok (⟨[⟨label, start, stop⟩], reference⟩, after)) :
    s.ReadsLeaf label (s.referencesAfter reference) tail := by
  refine ⟨start, stop, after, hafter, next_of_readAt hmodes hrest ?_⟩
  rw [readAt_escape hrest, readEscape, hmodes, h]
  cases reference <;> rfl

end ParserState

namespace Escape

variable {modes : Modes} {groups : Nat} {cur : Cursor} {tail : Text}

/-- A backslash before the character leaves it as it is. -/
def isSelf (c : Char) : Bool :=
  (Shorthand.ofChar? c).isNone && (Anchor.ofEscape? c).isNone && (control? c).isNone &&
    (hexWidth? c).isNone && !isDigitChar c && !isAlphanumeric c &&
    !(['p', 'P', '0', 'k', 'g', 'Q', '_'].contains c)

theorem isSelf_of_special {c : Char} (h : c ∈ Literal.special) : isSelf c = true := by
  have hall : (Literal.special.all isSelf) = true := by decide +kernel
  exact List.all_eq_true.mp hall c h

theorem read_self {c : Char} (hc : isSelf c = true) (hrest : cur.rest = '\\' :: c :: tail) :
    read modes groups cur =
      .ok (.leaf (modes.literal c.toNat) cur.pos (cur.pos + 2), cur.advance 2) := by
  have hdrop : cur.rest.drop 1 = c :: tail := by rw [hrest]; rfl
  simp only [isSelf, Bool.and_eq_true, Option.isNone_iff_eq_none, Bool.not_eq_true',
    List.contains_eq_mem, List.mem_cons, List.not_mem_nil, or_false, decide_eq_false_iff_not,
    not_or] at hc
  obtain ⟨⟨⟨⟨⟨⟨hshorthand, hanchor⟩, hcontrol⟩, hwidth⟩, hdigit⟩, halpha⟩, hmarks⟩ := hc
  unfold read
  simp [hdrop, hshorthand, hanchor, hcontrol, hwidth, hdigit, halpha, hmarks]

theorem read_control {c : Char} {code : CodePoint} (hcode : control? c = some code)
    (hshorthand : Shorthand.ofChar? c = none) (hanchor : Anchor.ofEscape? c = none)
    (hrest : cur.rest = '\\' :: c :: tail) :
    read modes groups cur =
      .ok (.leaf (modes.literal code) cur.pos (cur.pos + 2), cur.advance 2) := by
  have hdrop : cur.rest.drop 1 = c :: tail := by rw [hrest]; rfl
  simp only [read, hdrop, hshorthand, hanchor, hcode]
  rfl

theorem read_shorthand {kind : Shorthand} (hrest : cur.rest = '\\' :: kind.letter :: tail) :
    read modes groups cur =
      .ok (.leaf (.charClass ['\\', kind.letter] .plain kind.chars) cur.pos (cur.pos + 2),
        cur.advance 2) := by
  have hdrop : cur.rest.drop 1 = kind.letter :: tail := by rw [hrest]; rfl
  simp only [read, hdrop]
  cases kind <;> rfl

theorem read_anchor {kind : Anchor} {c : Char} (hkind : Anchor.ofEscape? c = some kind)
    (hshorthand : Shorthand.ofChar? c = none) (hrest : cur.rest = '\\' :: c :: tail) :
    read modes groups cur = .ok (.leaf (.anchor kind) cur.pos (cur.pos + 2), cur.advance 2) := by
  have hdrop : cur.rest.drop 1 = c :: tail := by rw [hrest]; rfl
  simp only [read, hdrop, hshorthand, hkind]
  rfl

end Escape

/-! ## Section 5: References -/

namespace Cursor

variable {cur : Cursor} {found tail : Text} {stop : Char}

/-- A search finds what was printed before the next delimiter. -/
theorem upTo?_of_append (hrest : cur.rest = found ++ stop :: tail) (hstop : stop ∉ found) :
    ∃ after, after.rest = tail ∧ cur.upTo? stop = some (found, after) := by
  refine ⟨cur.advance (found.length + 1), ?_, upTo?_eq_some_iff.mpr ⟨hstop, ⟨tail, hrest⟩, rfl⟩⟩
  rw [advance_rest, hrest]
  simp

theorem run_of_text {p : Char → Bool} (hrest : cur.rest = found ++ tail)
    (hfound : ∀ c ∈ found, p c = true) (hstop : ∀ c ∈ tail.head?, p c = false) :
    ∃ after, after.rest = tail ∧ cur.run p = (found, after) := by
  refine ⟨cur.advance found.length, ?_, run_of_append hrest hfound hstop⟩
  rw [advance_rest, hrest, List.drop_left]

theorem readName_of_append (hrest : cur.rest = found ++ stop :: tail)
    (hname : isGroupName found = true) (hstop : stop ∉ found) :
    ∃ after, after.rest = tail ∧ cur.readName stop = .ok (found, after) := by
  obtain ⟨after, hafter, hfound⟩ := upTo?_of_append hrest hstop
  refine ⟨after, hafter, ?_⟩
  simp only [readName, hfound, hname, if_true]

end Cursor

namespace Escape

variable (modes : Modes) (groups : Nat) {cur : Cursor} {tail : Text}

theorem read_named {name : Text} (hname : isGroupName name = true)
    (hrest : cur.rest = ['\\', 'k', '<'] ++ name ++ '>' :: tail) :
    ∃ after, after.rest = tail ∧
      read modes groups cur =
        .ok (⟨[⟨.backreference name, cur.pos, after.pos⟩], some name⟩, after) := by
  have hhead : (cur.advance 2).rest.head? = some '<' := by
    rw [Cursor.advance_rest, hrest]; simp
  have hname' : ((cur.advance 2).advance 1).rest = name ++ '>' :: tail := by
    rw [Cursor.advance_rest, Cursor.advance_rest, hrest]; simp
  obtain ⟨after, hafter, hread⟩ := Cursor.readName_of_append hname' hname
    (not_mem_of_isGroupName hname (by decide +kernel) (by decide))
  refine ⟨after, hafter, ?_⟩
  rw [List.append_assoc] at hrest
  rw [read_eq_readNamed hrest]
  simp only [readNamed, hhead, Option.bind_some, closing?, hread]
  rfl

/-- A number without a sign stands for itself. -/
theorem absoluteReference_toDigits (start index : Nat) :
    absoluteReference start groups (Nat.toDigits 10 index) = .ok (Nat.toDigits 10 index) := by
  have hsigned : signedDigits? (Nat.toDigits 10 index) = none := by
    cases hdigits : Nat.toDigits 10 index with
    | nil => rfl
    | cons c digits =>
      have hc : isDecimal c = true :=
        Numeral.isDecimal_of_mem_toDigits (n := index) (hdigits ▸ List.mem_cons_self)
      have hplus : c ≠ '+' := by rintro rfl; revert hc; decide +kernel
      have hminus : c ≠ '-' := by rintro rfl; revert hc; decide +kernel
      simp [signedDigits?, hplus, hminus]
  simp only [absoluteReference, hsigned, Numeral.isDigitText_toDigits, Bool.true_or, if_true]

theorem read_braced {index : Nat}
    (hrest : cur.rest = ['\\', 'g', '\x7b'] ++ Nat.toDigits 10 index ++ '\x7d' :: tail) :
    ∃ after, after.rest = tail ∧
      read modes groups cur =
        .ok (⟨[⟨.backreference (Nat.toDigits 10 index), cur.pos, after.pos⟩],
          some (Nat.toDigits 10 index)⟩, after) := by
  have hbrace : (cur.advance 2).rest = '\x7b' :: (Nat.toDigits 10 index ++ '\x7d' :: tail) := by
    rw [Cursor.advance_rest, hrest]; simp
  have hdigits : ((cur.advance 2).advance 1).rest = Nat.toDigits 10 index ++ '\x7d' :: tail := by
    rw [Cursor.advance_rest, hbrace]; simp
  obtain ⟨after, hafter, hfound⟩ :=
    Cursor.upTo?_of_append hdigits (not_mem_toDigits (by decide +kernel))
  refine ⟨after, hafter, ?_⟩
  rw [List.append_assoc] at hrest
  rw [read_eq_readGeneral hrest]
  simp only [readGeneral, hbrace, hfound, backreference, absoluteReference_toDigits]
  rfl

end Escape

namespace ParserState

variable {s : ParserState} {tail : Text}

/-! ## Section 6: Printed leaves -/

theorem readsLeaf_literal {char : Char} (hmodes : s.frame.modes = .none)
    (hrest : s.cur.rest = Literal.escapeChar char ++ tail) :
    s.ReadsLeaf (Modes.none.literal char.toNat) s.references tail := by
  have htwo : ∀ {c d : Char}, s.cur.rest = c :: d :: tail → (s.cur.advance 2).rest = tail := by
    intro c d h
    rw [Cursor.advance_rest, h]
    rfl
  unfold Literal.escapeChar at hrest
  split at hrest
  next hspecial =>
    have hself := Escape.isSelf_of_special (List.contains_iff_mem.mp hspecial)
    exact readsLeaf_of_escape hmodes hrest (htwo hrest) (Escape.read_self hself hrest)
  next hspecial =>
    split at hrest
    next hnewline =>
      obtain rfl := eq_of_beq hnewline
      exact readsLeaf_of_escape hmodes hrest (htwo hrest) (Escape.read_control rfl rfl rfl hrest)
    split at hrest
    next htab =>
      obtain rfl := eq_of_beq htab
      exact readsLeaf_of_escape hmodes hrest (htwo hrest) (Escape.read_control rfl rfl rfl hrest)
    split at hrest
    next hreturn =>
      obtain rfl := eq_of_beq hreturn
      exact readsLeaf_of_escape hmodes hrest (htwo hrest) (Escape.read_control rfl rfl rfl hrest)
    next =>
      -- the character stands for itself
      have hread := readAt_of_not_special hrest fun hmem =>
        hspecial (List.contains_iff_mem.mpr hmem)
      rw [hmodes] at hread
      exact readsLeaf_of_readOne hmodes hrest hread

theorem readsLeaf_shorthand {kind : Shorthand} (hmodes : s.frame.modes = .none)
    (hrest : s.cur.rest = ['\\', kind.letter] ++ tail) :
    s.ReadsLeaf (.charClass ['\\', kind.letter] .plain kind.chars) s.references tail :=
  readsLeaf_of_escape hmodes hrest (by rw [Cursor.advance_rest, hrest]; rfl)
    (Escape.read_shorthand hrest)

theorem readsLeaf_anchor {kind : Anchor} (hmodes : s.frame.modes = .none)
    (hrest : s.cur.rest = kind.text ++ tail) :
    s.ReadsLeaf (.anchor kind) s.references tail := by
  -- all anchors but the first two are escapes
  have hescape : ∀ {c : Char}, Anchor.ofEscape? c = some kind → Shorthand.ofChar? c = none →
      s.cur.rest = '\\' :: c :: tail → s.ReadsLeaf (.anchor kind) s.references tail := by
    intro c hkind hshorthand hrest
    exact readsLeaf_of_escape hmodes hrest (by rw [Cursor.advance_rest, hrest]; rfl)
      (Escape.read_anchor hkind hshorthand hrest)
  cases kind with
  | lineStart => exact readsLeaf_lineStart hmodes hrest
  | lineEnd => exact readsLeaf_lineEnd hmodes hrest
  | textStart => exact hescape rfl rfl hrest
  | textEnd => exact hescape rfl rfl hrest
  | absoluteEnd => exact hescape rfl rfl hrest
  | wordBoundary => exact hescape rfl rfl hrest
  | notWordBoundary => exact hescape rfl rfl hrest
  | previousMatchEnd => exact hescape rfl rfl hrest

theorem readsLeaf_backreference {target : Target} (htarget : target.IsPrintable)
    (hmodes : s.frame.modes = .none) (hrest : s.cur.rest = target.backreferenceText ++ tail) :
    s.ReadsLeaf (.backreference target.text) (⟨target.text, s.cur.pos⟩ :: s.references) tail := by
  cases target with
  | number index =>
    simp only [Target.backreferenceText, List.append_assoc] at hrest
    obtain ⟨after, hafter, hread⟩ := Escape.read_braced .none s.groups
      (by rw [hrest, List.append_assoc]; rfl)
    exact readsLeaf_of_escape hmodes hrest hafter hread
  | name word =>
    simp only [Target.backreferenceText, List.append_assoc] at hrest
    obtain ⟨after, hafter, hread⟩ := Escape.read_named .none s.groups htarget
      (by rw [hrest, List.append_assoc]; rfl)
    exact readsLeaf_of_escape hmodes hrest hafter hread

/-- After a parenthesis and a question mark an extension is read. -/
theorem readAt_extension (hrest : s.cur.rest = '(' :: '?' :: tail) :
    s.readAt '(' = s.readExtension s.cur.pos (s.cur.advance 2) := by
  show s.readOpening = _
  simp only [readOpening, hrest, List.drop_succ_cons, List.drop_zero]

theorem readsLeaf_recursion (hmodes : s.frame.modes = .none)
    (hrest : s.cur.rest = ['(', '?', 'R', ')'] ++ tail) :
    s.ReadsLeaf (.recursion ['R']) s.references tail := by
  have hmark : (s.cur.advance 2).rest = ['R'] ++ ')' :: tail := by
    rw [Cursor.advance_rest, hrest]; rfl
  obtain ⟨after, hafter, hfound⟩ := Cursor.upTo?_of_append hmark (by decide)
  refine ⟨s.cur.pos, after.pos, after, hafter, next_of_readAt hmodes hrest ?_⟩
  rw [readAt_extension hrest]
  simp only [readExtension, hmark, readRecursion, hfound]
  rfl

/-! ## Section 7: Openings -/

/-- One step opens a frame in `t`, which has the counters of the state after
    it, and stops before `tail`. -/
def Opens (s : ParserState) (opener : Opener) (t : ParserState) (tail : Text) : Prop :=
  ∃ start cur, cur.rest = tail ∧ Next s (t.enter opener start .none cur)

theorem opens_capturing (hmodes : s.frame.modes = .none) (hrest : s.cur.rest = '(' :: tail)
    (htail : '?' ∉ tail.head?) :
    s.Opens (.group (.capturing (s.groups + 1))) { s with groups := s.groups + 1 } tail := by
  refine ⟨s.cur.pos, s.cur.advance 1, by rw [Cursor.advance_rest, hrest]; rfl,
    next_of_readAt hmodes hrest ?_⟩
  show s.readOpening = _
  simp only [readOpening, hrest, List.drop_succ_cons, List.drop_zero]
  split
  next => exact absurd rfl htail
  next => rw [enterCapturing, hmodes]

theorem opens_of_readExtension {opener : Opener} {t : ParserState} {rest : Text}
    {cur : Cursor} (hmodes : s.frame.modes = .none) (hrest : s.cur.rest = '(' :: '?' :: rest)
    (hcur : cur.rest = tail)
    (h : s.readExtension s.cur.pos (s.cur.advance 2) = .ok (t.enter opener s.cur.pos .none cur)) :
    s.Opens opener t tail :=
  ⟨s.cur.pos, cur, hcur, next_of_readAt hmodes hrest ((readAt_extension hrest).trans h)⟩

/-- A mark after `(?` that does nothing but open a frame. -/
theorem opens_of_mark {opener : Opener} (mark : Text) (hmodes : s.frame.modes = .none)
    (hrest : s.cur.rest = '(' :: '?' :: (mark ++ tail))
    (h : (s.cur.advance 2).rest = mark ++ tail →
      s.readExtension s.cur.pos (s.cur.advance 2) =
        .ok (s.enter opener s.cur.pos s.frame.modes ((s.cur.advance 2).advance mark.length))) :
    s.Opens opener s tail := by
  have hmark : (s.cur.advance 2).rest = mark ++ tail := by
    rw [Cursor.advance_rest, hrest]; rfl
  refine opens_of_readExtension hmodes hrest ?_ (hmodes ▸ h hmark)
  rw [Cursor.advance_rest, hmark, List.drop_left]

theorem opens_nonCapturing (hmodes : s.frame.modes = .none)
    (hrest : s.cur.rest = ['(', '?', ':'] ++ tail) :
    s.Opens (.group (.nonCapturing .none)) s tail := by
  refine opens_of_mark [':'] hmodes hrest fun hmark => ?_
  simp only [readExtension, hmark]
  rfl

theorem opens_atomic (hmodes : s.frame.modes = .none)
    (hrest : s.cur.rest = ['(', '?', '>'] ++ tail) : s.Opens (.group .atomic) s tail := by
  refine opens_of_mark ['>'] hmodes hrest fun hmark => ?_
  simp only [readExtension, hmark]
  rfl

theorem opens_lookaround {direction : LookDirection} {negated : Bool}
    (hmodes : s.frame.modes = .none)
    (hrest : s.cur.rest = lookaroundOpening direction negated ++ tail) :
    s.Opens (.lookaround direction negated) s tail := by
  cases direction <;> cases negated
  next =>
    refine opens_of_mark ['='] hmodes hrest fun hmark => ?_
    simp only [readExtension, hmark]
    rfl
  next =>
    refine opens_of_mark ['!'] hmodes hrest fun hmark => ?_
    simp only [readExtension, hmark]
    rfl
  next =>
    refine opens_of_mark ['<', '='] hmodes hrest fun hmark => ?_
    simp only [readExtension, hmark]
    rfl
  next =>
    refine opens_of_mark ['<', '!'] hmodes hrest fun hmark => ?_
    simp only [readExtension, hmark]
    rfl

/-- A mark after `(?` before a new name. -/
theorem opens_of_nameMark {name : Text} {spelling : NameSpelling} {terminator : Char}
    (mark : Text) (hmodes : s.frame.modes = .none) (hname : isGroupName name = true)
    (hfresh : name ∉ s.names.map Prod.fst) (hterminator : terminator ∉ name)
    (hrest : s.cur.rest = '(' :: '?' :: (mark ++ (name ++ terminator :: tail)))
    (h : (s.cur.advance 2).rest = mark ++ (name ++ terminator :: tail) →
      s.readExtension s.cur.pos (s.cur.advance 2) =
        s.enterNamed s.cur.pos ((s.cur.advance 2).advance mark.length) terminator spelling) :
    s.Opens (.group (.named (s.groups + 1) name spelling))
      { s with groups := s.groups + 1, names := s.names ++ [(name, s.groups + 1)] } tail := by
  have hmark : (s.cur.advance 2).rest = mark ++ (name ++ terminator :: tail) := by
    rw [Cursor.advance_rest, hrest]; rfl
  have hbehind : ((s.cur.advance 2).advance mark.length).rest = name ++ terminator :: tail := by
    rw [Cursor.advance_rest, hmark, List.drop_left]
  obtain ⟨after, hafter, hread⟩ := Cursor.readName_of_append hbehind hname hterminator
  -- the check for a name that is taken lets the name pass
  have hnew : (s.names.any fun entry => entry.1 == name) = false := by
    refine List.any_eq_false.mpr fun entry hentry heq => hfresh ?_
    exact List.mem_map.mpr ⟨entry, hentry, eq_of_beq heq⟩
  refine opens_of_readExtension hmodes hrest hafter ?_
  rw [h hmark, enterNamed, hread, ← hmodes]
  simp only [bind, Except.bind, hnew]
  rfl

theorem opens_named {name : Text} {spelling : NameSpelling} (hmodes : s.frame.modes = .none)
    (hname : isGroupName name = true) (hfresh : name ∉ s.names.map Prod.fst)
    (hrest : s.cur.rest = (GroupForm.named name spelling).opening ++ tail) :
    s.Opens (.group (.named (s.groups + 1) name spelling))
      { s with groups := s.groups + 1, names := s.names ++ [(name, s.groups + 1)] } tail := by
  have hquote : '\'' ∉ name := not_mem_of_isGroupName hname (by decide +kernel) (by decide)
  have hangle : '>' ∉ name := not_mem_of_isGroupName hname (by decide +kernel) (by decide)
  cases spelling with
  | pAngle =>
    simp only [GroupForm.opening, List.append_assoc] at hrest
    refine opens_of_nameMark ['P', '<'] hmodes hname hfresh hangle hrest fun hmark => ?_
    simp only [readExtension, hmark]
    rfl
  | angle =>
    simp only [GroupForm.opening, List.append_assoc] at hrest
    refine opens_of_nameMark ['<'] hmodes hname hfresh hangle hrest fun hmark => ?_
    -- the first character of the name does not make it a lookbehind
    have hequal : '=' ∉ name := not_mem_of_isGroupName hname (by decide +kernel) (by decide)
    have hbang : '!' ∉ name := not_mem_of_isGroupName hname (by decide +kernel) (by decide)
    cases name with
    | nil => exact Bool.noConfusion hname
    | cons c rest =>
      simp only [List.mem_cons, not_or] at hequal hbang
      unfold readExtension
      rw [hmark]
      simp [Ne.symm hequal.1, Ne.symm hbang.1]
  | quote =>
    simp only [GroupForm.opening, List.append_assoc] at hrest
    refine opens_of_nameMark ['\''] hmodes hname hfresh hquote hrest fun hmark => ?_
    simp only [readExtension, hmark]
    rfl

/-- The opening of a group counts and names it. -/
theorem opens_group {form : GroupForm} (hform : form.IsPrintable) (hmodes : s.frame.modes = .none)
    (hfresh : ((s.names ++ form.names (s.groups + 1)).map Prod.fst).Nodup)
    (hrest : s.cur.rest = form.opening ++ tail) (htail : '?' ∉ tail.head?) :
    s.Opens (.group (form.kind (s.groups + 1)))
      { s with
        groups := s.groups + form.count
        names := s.names ++ form.names (s.groups + 1) } tail := by
  cases form with
  | capturing =>
    simp only [GroupForm.names, List.append_nil]
    exact opens_capturing hmodes hrest htail
  | named name spelling =>
    refine opens_named hmodes hform (fun hmem => ?_) hrest
    simp only [GroupForm.names, List.map_append, List.nodup_append] at hfresh
    exact hfresh.2.2 name hmem name (by simp) rfl
  | nonCapturing =>
    simp only [GroupForm.names, List.append_nil]
    exact opens_nonCapturing hmodes hrest
  | atomic =>
    simp only [GroupForm.names, List.append_nil]
    exact opens_atomic hmodes hrest

theorem opens_conditional {condition : Target} (hcondition : condition.IsPrintable)
    (hmodes : s.frame.modes = .none)
    (hrest : s.cur.rest = ['(', '?', '('] ++ condition.text ++ ')' :: tail) :
    s.Opens (.conditional condition.text) (s.refer condition.text s.cur.pos) tail := by
  rw [List.append_assoc] at hrest
  have hmark : (s.cur.advance 2).rest = '(' :: (condition.text ++ ')' :: tail) := by
    rw [Cursor.advance_rest, hrest]; rfl
  have hcondition' : ((s.cur.advance 2).advance 1).rest = condition.text ++ ')' :: tail := by
    rw [Cursor.advance_rest, hmark]; rfl
  have hclose : ')' ∉ condition.text := by
    cases condition with
    | number index => exact not_mem_toDigits (by decide +kernel)
    | name word => exact not_mem_of_isGroupName hcondition (by decide +kernel) (by decide)
  have hform : (isDigitText condition.text || isGroupName condition.text) = true := by
    cases condition with
    | number index => simp [Target.text, Numeral.isDigitText_toDigits]
    | name word => simp [Target.text, show isGroupName word = true from hcondition]
  obtain ⟨after, hafter, hfound⟩ := Cursor.upTo?_of_append hcondition' hclose
  refine opens_of_readExtension hmodes hrest hafter ?_
  simp only [readExtension, hmark, enterConditional, hfound, hform, hmodes]
  rfl

/-! ## Section 8: Bars and quantifiers -/

theorem next_bar (hmodes : s.frame.modes = .none) (hrest : s.cur.rest = '|' :: tail) :
    Next s ({ s with frame := s.frame.nextBranch }.moveTo (s.cur.advance 1)) :=
  next_of_readAt hmodes hrest rfl

end ParserState

/-- Neither a question mark nor a plus comes next: a quantifier before the
    text has no suffix. -/
def IsSeparate (text : Text) : Prop :=
  ∀ c ∈ text.head?, c ≠ '?' ∧ c ≠ '+'

theorem QuantifierMode.read_of_suffix {mode : QuantifierMode} {cur : Cursor} {tail : Text}
    (hrest : cur.rest = mode.suffix ++ tail) (htail : IsSeparate tail) :
    ∃ after, after.rest = tail ∧ QuantifierMode.read cur = (mode, after) := by
  cases mode with
  | greedy =>
    obtain rfl : cur.rest = tail := hrest
    refine ⟨cur, rfl, ?_⟩
    unfold QuantifierMode.read
    split
    next heq => exact absurd rfl (htail '?' (by rw [heq]; rfl)).1
    next heq => exact absurd rfl (htail '+' (by rw [heq]; rfl)).2
    next => rfl
  | lazy =>
    refine ⟨cur.advance 1, by rw [Cursor.advance_rest, hrest]; rfl, ?_⟩
    simp only [QuantifierMode.read, hrest]
    rfl
  | possessive =>
    refine ⟨cur.advance 1, by rw [Cursor.advance_rest, hrest]; rfl, ?_⟩
    simp only [QuantifierMode.read, hrest]
    rfl

namespace Bounds

theorem number_toDigits {n : Nat} (h : IsWritable n) :
    Read.number (Nat.toDigits 10 n) = .ok n := by
  simp only [Read.number, Numeral.read_of_write h]

/-- Printed bounds are taken apart at the comma and the braces. -/
theorem written?_of_append {cur : Cursor} {low high tail : Text} {comma : Bool}
    (hlow : ∀ c ∈ low, isDecimal c = true) (hhigh : ∀ c ∈ high, isDecimal c = true)
    (hne : low ≠ []) (hcomma : comma = false → high = [])
    (hrest : cur.rest =
      '\x7b' :: (low ++ ((if comma then [','] else []) ++ (high ++ '\x7d' :: tail)))) :
    ∃ after, after.rest = tail ∧ written? cur = some ((low, comma, high), after) := by
  have hempty : low.isEmpty = false := List.isEmpty_eq_false_iff.mpr hne
  have hstop : ∀ c ∈ ('\x7d' :: tail).head?, isDecimal c = false := by
    intro c hc
    obtain rfl : '\x7d' = c := Option.some.inj hc
    decide +kernel
  have hopen : (cur.advance 1).rest =
      low ++ ((if comma then [','] else []) ++ (high ++ '\x7d' :: tail)) := by
    rw [Cursor.advance_rest, hrest]
    rfl
  cases comma with
  | false =>
    -- the second run starts where the first one stopped and finds nothing
    obtain rfl := hcomma rfl
    obtain ⟨afterLow, hafterLow, hrunLow⟩ := Cursor.run_of_text hopen hlow hstop
    have hnothing : afterLow.rest = [] ++ '\x7d' :: tail := hafterLow
    obtain ⟨afterHigh, hafterHigh, hrunHigh⟩ := Cursor.run_of_text hnothing hhigh hstop
    refine ⟨afterHigh.advance 1, by rw [Cursor.advance_rest, hafterHigh]; rfl, ?_⟩
    simp [written?, hrest, hrunLow, hafterLow, hrunHigh, hafterHigh, hempty]
  | true =>
    have hmark : ∀ c ∈ (',' :: (high ++ '\x7d' :: tail)).head?, isDecimal c = false := by
      intro c hc
      obtain rfl : ',' = c := Option.some.inj hc
      decide +kernel
    obtain ⟨afterLow, hafterLow, hrunLow⟩ := Cursor.run_of_text hopen hlow hmark
    have hbehind : (afterLow.advance 1).rest = high ++ '\x7d' :: tail := by
      rw [Cursor.advance_rest, hafterLow]
      rfl
    obtain ⟨afterHigh, hafterHigh, hrunHigh⟩ := Cursor.run_of_text hbehind hhigh hstop
    refine ⟨afterHigh.advance 1, by rw [Cursor.advance_rest, hafterHigh]; rfl, ?_⟩
    simp [written?, hrest, hrunLow, hafterLow, hrunHigh, hafterHigh, hempty]

/-- Printed bounds have parts that denote them. -/
theorem exists_written {bounds : Bounds} (h : bounds.IsPrintable) :
    ∃ (comma : Bool) (high : Text), (∀ c ∈ high, isDecimal c = true) ∧
      (comma = false → high = []) ∧
      bounds.text = '\x7b' :: (Nat.toDigits 10 bounds.min ++
        ((if comma then [','] else []) ++ (high ++ ['\x7d']))) ∧
      ofWritten (Nat.toDigits 10 bounds.min) comma high = .ok bounds := by
  obtain ⟨-, hmin, hmax⟩ := h
  have hlow := number_toDigits hmin
  have hempty : ∀ n, (Nat.toDigits 10 n).isEmpty = false := fun n =>
    List.isEmpty_eq_false_iff.mpr Nat.toDigits_ne_nil
  obtain ⟨least, upper⟩ := bounds
  cases upper with
  | none =>
    refine ⟨true, [], by simp, by simp, by simp [text], ?_⟩
    simp only [ofWritten, hempty, hlow]
    rfl
  | some high =>
    have hhigh := number_toDigits (hmax high rfl)
    by_cases heq : high = least
    · -- equal bounds are written once
      subst heq
      refine ⟨false, [], by simp, by simp, by simp [text], ?_⟩
      simp only [ofWritten, hempty, hlow]
      rfl
    · refine ⟨true, Nat.toDigits 10 high, fun c hc => Numeral.isDecimal_of_mem_toDigits hc,
        by simp, by simp [text, heq], ?_⟩
      simp only [ofWritten, hempty, hlow, hhigh]
      rfl

theorem read?_of_text {bounds : Bounds} {cur : Cursor} {tail : Text} (h : bounds.IsPrintable)
    (hrest : cur.rest = bounds.text ++ tail) :
    ∃ after, after.rest = tail ∧ read? cur = .ok (some (bounds, after)) := by
  obtain ⟨comma, high, hhigh, hcomma, htext, hof⟩ := exists_written h
  rw [htext, List.cons_append] at hrest
  simp only [List.append_assoc] at hrest
  obtain ⟨after, hafter, hwritten⟩ := written?_of_append
    (fun c hc => Numeral.isDecimal_of_mem_toDigits hc) hhigh Nat.toDigits_ne_nil hcomma hrest
  refine ⟨after, hafter, ?_⟩
  have hbraces : read? cur = readBraces cur := by
    simp only [read?, hrest]
    rfl
  simp only [hbraces, readBraces, hwritten, hof]
  rfl

end Bounds

namespace ParserState

variable {s : ParserState} {tail : Text}

theorem next_quantifier {bounds : Bounds} {mode : QuantifierMode} {item : Node}
    {items : List Node} (hbounds : bounds.IsPrintable) (hmodes : s.frame.modes = .none)
    (hrest : s.cur.rest = bounds.text ++ (mode.suffix ++ tail)) (htail : IsSeparate tail)
    (hfirst : s.frame.quantified = false) (hitems : s.frame.items = item :: items)
    (hitem : item.label.isRepeatable = true) :
    ∃ cur, cur.rest = tail ∧ Next s (s.putQuantifier bounds mode item items cur) := by
  obtain ⟨middle, hmiddle, hread⟩ := Bounds.read?_of_text hbounds hrest
  obtain ⟨after, hafter, hmode⟩ := QuantifierMode.read_of_suffix hmiddle htail
  refine ⟨after, hafter, next_of_readAt hmodes hrest ?_⟩
  have happly : s.applyQuantifier bounds middle =
      .ok (s.putQuantifier bounds mode item items after) :=
    applyQuantifier_eq_ok_iff.mpr
      ⟨hbounds.ordered, hfirst, item, items, mode, after, hitems, hitem, hmode, rfl⟩
  simp only [readAt, hread]
  exact happly

end ParserState

end RegexInsight
