import Mathlib
import RegexInsight.Pattern
import RegexInsight.Proofs.Pattern.Leaf

/-! # Moves of the parser

    One step of the parser makes one of a dozen moves.  `Move` lists them
    with everything that a move changes and with the guards under which it
    is made, so that an invariant of the parser is proved move by move and
    no handler is opened again.

    A run is a sequence of steps.  Since every move passes characters, the
    length of the text bounds the length of a run, and the states that a
    run goes through are those that steps reach. -/

namespace RegexInsight

/-- What opens a frame without counting a group or naming a condition. -/
inductive Opener.IsPlain : Opener → Prop where
  | nonCapturing {flags : Option Text} : IsPlain (.group (.nonCapturing flags))
  | atomic : IsPlain (.group .atomic)
  | lookaround {direction : LookDirection} {negated : Bool} :
      IsPlain (.lookaround direction negated)

/-- The lower bound is at most the upper one. -/
def Bounds.Ordered (b : Bounds) : Prop :=
  ∀ high, b.max = some high → b.min ≤ high

/-- The label of a character that stands by itself. -/
def Modes.single (modes : Modes) (c : Char) : Label :=
  if c == '.' then modes.dot
  else if c == '^' then .anchor .lineStart
  else if c == '$' then .anchor .lineEnd
  else modes.literal c.toNat

theorem Modes.isPlain_single (modes : Modes) (c : Char) : (modes.single c).IsPlain modes := by
  unfold single
  split_ifs
  · exact .dot
  · exact .anchor
  · exact .anchor
  · exact .literal (toNat_le_maxCodePoint c)

namespace ParserState

/-! ## Section 1: The moves -/

/-- The state after a quantifier, read up to `cur`, was put over the last
    item of the current branch; `items` are the items before it. -/
def putQuantifier (s : ParserState) (bounds : Bounds) (mode : QuantifierMode) (item : Node)
    (items : List Node) (cur : Cursor) : ParserState :=
  { s with
    cur := cur
    frame := { s.frame with
      items := .build s.count (.quantifier bounds mode) item.start cur.pos [item] :: items
      quantified := true }
    count := s.count + 1 }

/-- The states that one step can lead to from `s`. -/
inductive Move (s : ParserState) : ParserState → Prop where
  /-- Skips whitespace or a comment. -/
  | skip {cur : Cursor} (hcur : s.cur.Passes cur) : Move s (s.moveTo cur)
  /-- Appends leaves that refer to nothing. -/
  | plain {leaves : List Escape.Leaf} {cur : Cursor} (hcur : s.cur.Passes cur)
      (hleaves : ∀ leaf ∈ leaves, leaf.label.IsPlain s.frame.modes) :
      Move s ((leaves.foldl addLeaf s).moveTo cur)
  /-- Changes the flags up to the end of the current group. -/
  | flags {text : Text} {start stop : Nat} {cur : Cursor} (hcur : s.cur.Passes cur) :
      Move s (({ s with frame := { s.frame with modes := s.frame.modes.apply text } }.addLeaf
        ⟨.flags text, start, stop⟩).moveTo cur)
  /-- Appends a reference and remembers its target. -/
  | backreference {target : Text} {cur : Cursor} (hcur : s.cur.Passes cur)
      (htarget : IsTarget target) :
      Move s (((s.refer target s.cur.pos).addLeaf
        ⟨.backreference target, s.cur.pos, cur.pos⟩).moveTo cur)
  /-- Appends a call and remembers its target in absolute form. -/
  | recursion {written target : Text} {cur : Cursor} (hcur : s.cur.Passes cur)
      (htarget : Escape.absoluteReference s.cur.pos s.groups written = .ok target) :
      Move s (((s.refer target s.cur.pos).addLeaf
        ⟨.recursion written, s.cur.pos, cur.pos⟩).moveTo cur)
  /-- Appends a call of the whole pattern. -/
  | whole {written call : Text} {cur : Cursor} (hcur : s.cur.Passes cur)
      (hcall : call ∈ wholeCalls) (hrest : s.cur.rest = call ++ cur.rest) :
      Move s ((s.addLeaf ⟨.recursion written, s.cur.pos, cur.pos⟩).moveTo cur)
  /-- Opens a frame that is neither counted nor conditional. -/
  | enter {opener : Opener} {start : Nat} {modes : Modes} {cur : Cursor}
      (hcur : s.cur.Passes cur) (hopener : opener.IsPlain) :
      Move s (s.enter opener start modes cur)
  | enterCapturing {start : Nat} {cur : Cursor} (hcur : s.cur.Passes cur) :
      Move s (s.enterCapturing start cur)
  /-- Opens a group with a name that is not taken. -/
  | enterNamed {name : Text} {spelling : NameSpelling} {start : Nat} {cur : Cursor}
      (hcur : s.cur.Passes cur) (hname : isGroupName name = true)
      (hfresh : ∀ entry ∈ s.names, entry.1 ≠ name) :
      Move s ({ s with
          groups := s.groups + 1
          names := s.names ++ [(name, s.groups + 1)] }.enter
        (.group (.named (s.groups + 1) name spelling)) start s.frame.modes cur)
  | enterConditional {condition : Text} {cur : Cursor} (hcur : s.cur.Passes cur)
      (hcondition : IsTarget condition) :
      Move s ((s.refer condition s.cur.pos).enter (.conditional condition) s.cur.pos
        s.frame.modes cur)
  | nextBranch {cur : Cursor} (hcur : s.cur.Passes cur) :
      Move s ({ s with frame := s.frame.nextBranch }.moveTo cur)
  /-- Closes the current frame and appends its node to the one around it. -/
  | close {frame : Frame} {outer : List Frame} {node : Node} {count : Nat} {cur : Cursor}
      (hcur : s.cur.Passes cur) (houter : s.outer = frame :: outer)
      (hclose : s.frame.close s.count cur.pos = .ok (node, count)) :
      Move s { s with cur := cur, frame := frame.push node, outer := outer, count := count }
  /-- Puts a quantifier over the last item of the current branch. -/
  | quantify {bounds : Bounds} {mode : QuantifierMode} {item : Node} {items : List Node}
      {cur : Cursor} (hcur : s.cur.Passes cur) (hbounds : bounds.Ordered)
      (hfirst : s.frame.quantified = false) (hitems : s.frame.items = item :: items)
      (hitem : item.label.isRepeatable = true)
      (hread : ∃ after, Bounds.read? s.cur = .ok (some (bounds, after)) ∧
        QuantifierMode.read after = (mode, cur)) :
      Move s (s.putQuantifier bounds mode item items cur)

variable {s s' : ParserState}

/-- Every move passes characters. -/
theorem Move.passes (h : Move s s') : s.cur.Passes s'.cur := by
  cases h <;> assumption

/-! ## Section 2: The handlers make moves -/

theorem move_of_enterNamed {start : Nat} {cur : Cursor} {terminator : Char}
    {spelling : NameSpelling} (hcur : s.cur.Passes cur)
    (h : s.enterNamed start cur terminator spelling = .ok s') : Move s s' := by
  obtain ⟨⟨name, after⟩, hname, hrest⟩ := Read.bind_eq_ok.mp h
  obtain ⟨hfresh, hstate⟩ := Read.guard_eq_ok.mp hrest
  obtain rfl := Except.ok.inj hstate
  refine .enterNamed (hcur.trans_reaches (Cursor.passes_of_readName hname).reaches)
    (Cursor.isGroupName_of_readName hname) fun entry hentry heq => hfresh ?_
  exact List.any_eq_true.mpr ⟨entry, hentry, beq_iff_eq.mpr heq⟩

theorem move_of_readRecursion {rest : Text} (hrest : s.cur.rest = '(' :: '?' :: rest)
    (h : s.readRecursion s.cur.pos (s.cur.advance 2) = .ok s') : Move s s' := by
  unfold readRecursion at h
  split at h
  · simp at h
  · next target after hfound =>
    have hpasses := (Cursor.passes_next_two hrest).trans_reaches (Cursor.passes_of_upTo? hfound).reaches
    dsimp only at h
    split at h
    · next hwhole =>
      obtain rfl := Except.ok.inj h
      obtain rfl := eq_of_beq hwhole
      have hcall : "(?R)".toList ∈ wholeCalls := by decide
      refine .whole hpasses hcall ?_
      obtain ⟨-, ⟨tail, htail⟩, rfl⟩ := Cursor.upTo?_eq_some_iff.mp hfound
      rw [Cursor.advance_rest, hrest, List.drop_succ_cons, List.drop_succ_cons, List.drop_zero]
        at htail
      simp [hrest, htail]
    · obtain ⟨-, h⟩ := Read.guard_eq_ok'.mp h
      obtain ⟨reference, hreference, hstate⟩ := Read.bind_eq_ok.mp h
      obtain rfl := Except.ok.inj hstate
      exact .recursion hpasses hreference

theorem move_of_enterConditional {cur : Cursor} (hcur : s.cur.Passes cur)
    (h : s.enterConditional s.cur.pos cur = .ok s') : Move s s' := by
  unfold enterConditional at h
  split at h
  · simp at h
  · next hfound =>
    obtain ⟨hcondition, hstate⟩ := Read.guard_eq_ok'.mp h
    obtain rfl := Except.ok.inj hstate
    exact .enterConditional (hcur.trans_reaches (Cursor.passes_of_upTo? hfound).reaches)
      (by simpa [IsTarget] using hcondition)

theorem move_of_readFlags {start : Nat} {cur : Cursor} (hcur : s.cur.Passes cur)
    (h : s.readFlags start cur = .ok s') : Move s s' := by
  have hrun := hcur.trans_reaches (Cursor.reaches_run cur isFlagChar)
  unfold readFlags at h
  dsimp only at h
  split at h
  · next hrest =>
    obtain rfl := Except.ok.inj h
    exact .flags (hrun.trans_reaches (Cursor.passes_next hrest).reaches)
  · next hrest =>
    obtain rfl := Except.ok.inj h
    exact .enter (hrun.trans_reaches (Cursor.passes_next hrest).reaches) .nonCapturing
  · simp at h

/-- The marks behind `(?` that call for one thing only. -/
def groupMarks : List Char :=
  ['#', ':', '|', '>', '=', '!', '<', '\'', 'P', '&', '(']

/-- Behind `(?` these characters call a group, by its number or as a whole. -/
def showsCall (c : Char) (rest : Text) : Bool :=
  c == 'R' || isDigitChar c ||
    ((c == '+' || c == '-') && (rest.head?.map isDigitChar).getD false)

/-- One of the marks stands at the cursor. -/
def ShowsMark (cur : Cursor) : Prop :=
  ∃ c ∈ groupMarks, ∃ rest, cur.rest = c :: rest

/-- What is read behind `(?`: what one of the marks calls for, or a call, or
    flags.  Each reader behind a mark begins at a place that the marks lead
    to. -/
inductive ReadsExtension (s : ParserState) (start : Nat) (cur : Cursor) :
    Read ParserState → Prop where
  | ended (hrest : cur.rest = []) : ReadsExtension s start cur (.fail .endOfGroupHead start)
  | unclosed (hmark : ShowsMark cur) : ReadsExtension s start cur (.fail .unclosedComment start)
  | comment {after : Cursor} (hmark : ShowsMark cur) (hafter : cur.Passes after) :
      ReadsExtension s start cur (.ok (s.moveTo after))
  | opens {opener : Opener} {after : Cursor} (hmark : ShowsMark cur) (hafter : cur.Passes after)
      (hplain : opener.IsPlain) :
      ReadsExtension s start cur (.ok (s.enter opener start s.frame.modes after))
  | names {terminator : Char} {spelling : NameSpelling} {after : Cursor} (hmark : ShowsMark cur)
      (hafter : cur.Passes after) :
      ReadsExtension s start cur (s.enterNamed start after terminator spelling)
  | backreference {after : Cursor} (hmark : ShowsMark cur) (hafter : cur.Passes after) :
      ReadsExtension s start cur (s.readNamedReference start after .backreference)
  | nameCall {after : Cursor} (hmark : ShowsMark cur) (hafter : cur.Passes after) :
      ReadsExtension s start cur (s.readNamedReference start after .recursion)
  | conditional {after : Cursor} (hmark : ShowsMark cur) (hafter : cur.Passes after) :
      ReadsExtension s start cur (s.enterConditional start after)
  | call {c : Char} {rest : Text} (hrest : cur.rest = c :: rest) (hcall : showsCall c rest = true) :
      ReadsExtension s start cur (s.readRecursion start cur)
  | flags {c : Char} {rest : Text} (hrest : cur.rest = c :: rest)
      (hcall : ¬ showsCall c rest = true) : ReadsExtension s start cur (s.readFlags start cur)
  | unknown {c : Char} {rest : Text} (hrest : cur.rest = c :: rest)
      (hcall : ¬ showsCall c rest = true) :
      ReadsExtension s start cur (.fail (.unknownExtension c) start)

theorem readsExtension (s : ParserState) (start : Nat) (cur : Cursor) :
    s.ReadsExtension start cur (s.readExtension start cur) := by
  have hmark : ∀ {c : Char} {rest : Text}, cur.rest = c :: rest → c ∈ groupMarks → ShowsMark cur :=
    fun hrest hc => ⟨_, hc, _, hrest⟩
  unfold readExtension
  dsimp only
  split
  next hrest => exact .ended hrest
  next hrest =>
    split
    next => exact .unclosed (hmark hrest (by decide))
    next hfound => exact .comment (hmark hrest (by decide)) (Cursor.passes_of_upTo? hfound)
  next hrest => exact .opens (hmark hrest (by decide)) (Cursor.passes_next hrest) .nonCapturing
  next hrest => exact .opens (hmark hrest (by decide)) (Cursor.passes_next hrest) .nonCapturing
  next hrest => exact .opens (hmark hrest (by decide)) (Cursor.passes_next hrest) .atomic
  next hrest => exact .opens (hmark hrest (by decide)) (Cursor.passes_next hrest) .lookaround
  next hrest => exact .opens (hmark hrest (by decide)) (Cursor.passes_next hrest) .lookaround
  next hrest => exact .opens (hmark hrest (by decide)) (Cursor.passes_next_two hrest) .lookaround
  next hrest => exact .opens (hmark hrest (by decide)) (Cursor.passes_next_two hrest) .lookaround
  next hrest => exact .names (hmark hrest (by decide)) (Cursor.passes_next hrest)
  next hrest => exact .names (hmark hrest (by decide)) (Cursor.passes_next hrest)
  next hrest => exact .names (hmark hrest (by decide)) (Cursor.passes_next_two hrest)
  next hrest => exact .backreference (hmark hrest (by decide)) (Cursor.passes_next_two hrest)
  next hrest => exact .nameCall (hmark hrest (by decide)) (Cursor.passes_next_two hrest)
  next hrest => exact .nameCall (hmark hrest (by decide)) (Cursor.passes_next hrest)
  next hrest => exact .conditional (hmark hrest (by decide)) (Cursor.passes_next hrest)
  next hrest =>
    split
    next hcall => exact .call hrest hcall
    next hcall =>
      split
      next => exact .flags hrest hcall
      next => exact .unknown hrest hcall

theorem move_of_readExtension {rest : Text} (hopening : s.cur.rest = '(' :: '?' :: rest)
    (h : s.readExtension s.cur.pos (s.cur.advance 2) = .ok s') : Move s s' := by
  have hcur : s.cur.Passes (s.cur.advance 2) := Cursor.passes_next_two hopening
  have hreads := s.readsExtension s.cur.pos (s.cur.advance 2)
  generalize s.readExtension s.cur.pos (s.cur.advance 2) = result at hreads h
  cases hreads with
  | ended | unclosed | unknown => simp at h
  | comment _ hafter =>
    obtain rfl := Except.ok.inj h
    exact .skip (hcur.trans_reaches hafter.reaches)
  | opens _ hafter hplain =>
    obtain rfl := Except.ok.inj h
    exact .enter (hcur.trans_reaches hafter.reaches) hplain
  | names _ hafter => exact move_of_enterNamed (hcur.trans_reaches hafter.reaches) h
  | backreference _ hafter =>
    obtain ⟨⟨name, after⟩, hname, hstate⟩ := Read.bind_eq_ok.mp h
    obtain rfl := Except.ok.inj hstate
    have hbehind := hcur.trans_reaches hafter.reaches
    exact .backreference (hbehind.trans_reaches (Cursor.passes_of_readName hname).reaches)
      (.inr (Cursor.isGroupName_of_readName hname))
  | nameCall _ hafter =>
    obtain ⟨⟨name, after⟩, hname, hstate⟩ := Read.bind_eq_ok.mp h
    obtain rfl := Except.ok.inj hstate
    have hbehind := hcur.trans_reaches hafter.reaches
    exact .recursion (hbehind.trans_reaches (Cursor.passes_of_readName hname).reaches)
      (Escape.absoluteReference_of_isGroupName (Cursor.isGroupName_of_readName hname))
  | conditional _ hafter =>
    exact move_of_enterConditional (hcur.trans_reaches hafter.reaches) h
  | call => exact move_of_readRecursion hopening h
  | flags => exact move_of_readFlags hcur h

theorem move_of_readOpening {rest : Text} (hrest : s.cur.rest = '(' :: rest)
    (h : s.readOpening = .ok s') : Move s s' := by
  unfold readOpening at h
  dsimp only at h
  split at h
  · next hquestion =>
    rw [hrest, List.drop_succ_cons, List.drop_zero] at hquestion
    exact move_of_readExtension (hquestion ▸ hrest) h
  · obtain rfl := Except.ok.inj h
    exact .enterCapturing (Cursor.passes_next hrest)

/-- A closing parenthesis closes the current frame, and its node becomes the
    last item of the frame around it. -/
theorem exists_of_readClosing (h : s.readClosing = .ok s') :
    ∃ frame outer node count, s.outer = frame :: outer ∧
      s.frame.close s.count (s.cur.advance 1).pos = .ok (node, count) ∧
      s' = { s with
        cur := s.cur.advance 1, frame := frame.push node, outer := outer, count := count } := by
  unfold readClosing at h
  split at h
  next => simp at h
  next frame outer houter =>
    obtain ⟨⟨node, count⟩, hclose, hstate⟩ := Read.bind_eq_ok.mp h
    exact ⟨frame, outer, node, count, houter, hclose, (Except.ok.inj hstate).symm⟩

theorem move_of_readClosing {c : Char} {rest : Text} (hrest : s.cur.rest = c :: rest)
    (h : s.readClosing = .ok s') : Move s s' := by
  obtain ⟨frame, outer, node, count, houter, hclose, rfl⟩ := exists_of_readClosing h
  exact .close (Cursor.passes_next hrest) houter hclose

/-- With bounds in order, a quantifier is put over an item that can be
    repeated and is not repeated yet. -/
theorem applyQuantifier_of_ordered {bounds : Bounds} {cur : Cursor} (h : bounds.Ordered) :
    s.applyQuantifier bounds cur =
      if s.frame.quantified then .fail .multipleRepeat s.cur.pos
      else
        match s.frame.items with
        | [] => .fail .nothingToRepeat s.cur.pos
        | item :: items =>
          if item.label.isRepeatable then
            .ok (s.putQuantifier bounds (QuantifierMode.read cur).1 item items
              (QuantifierMode.read cur).2)
          else .fail .nothingToRepeat s.cur.pos := by
  unfold applyQuantifier
  cases hmax : bounds.max with
  | none => rfl
  | some high =>
    have hle : ¬ high < bounds.min := Nat.not_lt.mpr (h high hmax)
    simp only [if_neg hle]
    rfl

theorem ordered_of_applyQuantifier {bounds : Bounds} {cur : Cursor}
    (h : s.applyQuantifier bounds cur = .ok s') : bounds.Ordered := by
  intro high hmax
  by_contra hlt
  unfold applyQuantifier at h
  simp [hmax, Nat.not_le.mp hlt, Read.bind_eq_ok] at h

/-- A quantifier is applied exactly if its bounds are in order and the last
    item can be repeated, and is not repeated yet. -/
theorem applyQuantifier_eq_ok_iff {bounds : Bounds} {cur : Cursor} :
    s.applyQuantifier bounds cur = .ok s' ↔
      bounds.Ordered ∧ s.frame.quantified = false ∧ ∃ item items mode stop,
        s.frame.items = item :: items ∧ item.label.isRepeatable = true ∧
        QuantifierMode.read cur = (mode, stop) ∧
        s' = s.putQuantifier bounds mode item items stop := by
  constructor
  · intro h
    have hbounds := ordered_of_applyQuantifier h
    rw [applyQuantifier_of_ordered hbounds] at h
    obtain ⟨hfirst, h⟩ := Read.guard_eq_ok.mp h
    split at h
    next => simp at h
    next item items hitems =>
      obtain ⟨hitem, hstate⟩ := Read.guard_eq_ok'.mp h
      exact ⟨hbounds, Bool.not_eq_true _ ▸ hfirst, item, items, _, _, hitems, hitem, rfl,
        (Except.ok.inj hstate).symm⟩
  · intro h
    obtain ⟨hbounds, hfirst, item, items, mode, stop, hitems, hitem, hmode, rfl⟩ := h
    rw [applyQuantifier_of_ordered hbounds, hfirst, hitems, hmode]
    simp only [Bool.false_eq_true, if_false, hitem, if_true]

/-- Behind a quantifier no other one may follow. -/
theorem quantified_of_applyQuantifier {bounds : Bounds} {after : Cursor}
    (h : s.applyQuantifier bounds after = .ok s') : s'.frame.quantified = true := by
  obtain ⟨-, -, item, items, mode, stop, -, -, -, rfl⟩ := applyQuantifier_eq_ok_iff.mp h
  rfl

theorem move_of_applyQuantifier {bounds : Bounds} {cur : Cursor}
    (hread : Bounds.read? s.cur = .ok (some (bounds, cur)))
    (h : s.applyQuantifier bounds cur = .ok s') : Move s s' := by
  have hcur : s.cur.Passes cur := Bounds.passes_of_read? hread
  obtain ⟨hbounds, hfirst, item, items, mode, stop, hitems, hitem, hmode, rfl⟩ :=
    applyQuantifier_eq_ok_iff.mp h
  have hstop : cur.Reaches stop := by
    have hreaches := QuantifierMode.reaches_read cur
    rwa [hmode] at hreaches
  exact .quantify (hcur.trans_reaches hstop) hbounds hfirst hitems hitem ⟨cur, hread, hmode⟩

/-- What the leaves of a sound reading do to the state is a move. -/
theorem move_of_reading {reading : Escape.Reading} {cur : Cursor} (hcur : s.cur.Passes cur)
    (h : reading.IsSound s.frame.modes s.groups s.cur cur) :
    Move s ((reading.leaves.foldl addLeaf
      (match reading.reference with
        | some target => s.refer target s.cur.pos
        | none => s)).moveTo cur) := by
  cases h with
  | plain hleaves => exact .plain hcur hleaves
  | backreference htarget => exact .backreference hcur htarget
  | recursion htarget => exact .recursion hcur htarget
  | whole hcall hrest => exact .whole hcur hcall hrest

theorem move_of_readEscape {rest : Text} (hrest : s.cur.rest = '\\' :: rest)
    (h : s.readEscape = .ok s') : Move s s' := by
  obtain ⟨⟨reading, after⟩, hreading, hstate⟩ := Read.bind_eq_ok.mp h
  obtain rfl := Except.ok.inj hstate
  obtain ⟨hcur, hsound⟩ := Escape.read_spec hrest hreading
  exact move_of_reading hcur hsound

/-- A single plain leaf is a move. -/
theorem move_of_leaf {leaf : Escape.Leaf} {cur : Cursor} (hcur : s.cur.Passes cur)
    (h : leaf.label.IsPlain s.frame.modes) : Move s ((s.addLeaf leaf).moveTo cur) := by
  show Move s (([leaf].foldl addLeaf s).moveTo cur)
  refine .plain hcur fun other hother => ?_
  obtain rfl := List.mem_singleton.mp hother
  exact h

theorem move_of_readBracket {rest : Text} (hrest : s.cur.rest = '[' :: rest)
    (h : s.readBracket = .ok s') : Move s s' := by
  obtain ⟨⟨leaf, after⟩, hleaf, hstate⟩ := Read.bind_eq_ok.mp h
  obtain rfl := Except.ok.inj hstate
  obtain ⟨hcur, hplain⟩ := Bracket.read_spec hrest hleaf
  exact move_of_leaf hcur hplain

/-! ## Section 3: One step -/

theorem passes_of_skipped? {cur : Cursor} (h : s.skipped? = some cur) : s.cur.Passes cur := by
  unfold skipped? at h
  split at h
  · simp at h
  · next c rest hrest =>
    split at h
    · simp at h
    split at h
    · obtain rfl := Option.some.inj h
      exact Cursor.passes_next hrest
    split at h
    · obtain rfl := Option.some.inj h
      split
      · next hfound => exact Cursor.passes_of_upTo? hfound
      · exact Cursor.passes_advance (by simp [hrest]) (Nat.le_refl _)
    · simp at h

/-- Verbose mode skips nothing but whitespace and comments. -/
theorem skipped?_eq_none {c : Char} {rest : Text} (hrest : s.cur.rest = c :: rest)
    (hspace : isSpace c = false) (hhash : c ≠ '#') : s.skipped? = none := by
  simp [skipped?, hrest, hspace, hhash]

theorem skipped?_of_not_verbose (h : s.frame.modes.verbose = false) : s.skipped? = none := by
  unfold skipped?
  split
  next => rfl
  next => rw [h]; rfl

theorem step_of_not_skipped {c : Char} (h : s.skipped? = none) : s.step c = s.readAt c := by
  simp only [step, h]

/-- Only a star, a plus, a question mark or a brace begins a quantifier. -/
theorem read?_eq_none {cur : Cursor} {c : Char} {rest : Text} (hrest : cur.rest = c :: rest)
    (hmark : c ∉ ['*', '+', '?', '{']) : Bounds.read? cur = .ok none := by
  simp only [List.mem_cons, List.not_mem_nil, or_false, not_or] at hmark
  obtain ⟨hstar, hplus, hquestion, hbrace⟩ := hmark
  unfold Bounds.read?
  rw [hrest]
  split
  next heq => exact absurd (List.cons.inj heq).1 hstar
  next heq => exact absurd (List.cons.inj heq).1 hplus
  next heq => exact absurd (List.cons.inj heq).1 hquestion
  next => simp only [Bounds.readBraces, Bounds.written?_eq_none hrest hbrace]

theorem readAt_escape {rest : Text} (hrest : s.cur.rest = '\\' :: rest) :
    s.readAt '\\' = s.readEscape := by
  simp only [readAt, read?_eq_none hrest (by decide)]
  rfl

theorem readAt_bracket {rest : Text} (hrest : s.cur.rest = '[' :: rest) :
    s.readAt '[' = s.readBracket := by
  simp only [readAt, read?_eq_none hrest (by decide)]
  rfl

theorem readAt_quantifier {c : Char} {bounds : Bounds} {after : Cursor} (hc : c ∉ ['(', ')', '|'])
    (h : Bounds.read? s.cur = .ok (some (bounds, after))) :
    s.readAt c = s.applyQuantifier bounds after := by
  simp only [List.mem_cons, List.not_mem_nil, or_false, not_or] at hc
  obtain ⟨hopen, hclose, hbar⟩ := hc
  simp only [readAt, h, beq_iff_eq, hopen, hclose, hbar, if_false]
  rfl

theorem readAt_single {c : Char} (hc : c ∉ ['(', ')', '|', '[', '\\'])
    (h : Bounds.read? s.cur = .ok none) :
    s.readAt c = .ok (s.readOne (s.frame.modes.single c)) := by
  simp only [List.mem_cons, List.not_mem_nil, or_false, not_or] at hc
  obtain ⟨hopen, hclose, hbar, hbracket, hescape⟩ := hc
  simp only [readAt, h, bind, Except.bind, beq_iff_eq, hopen, hclose, hbar, hbracket, hescape,
    if_false, Modes.single]
  split_ifs <;> rfl

/-- What is read at a character: what it begins, or the quantifier that stands
    there, or the character by itself. -/
inductive ReadsAt (s : ParserState) : Char → Read ParserState → Prop where
  | opening : ReadsAt s '(' s.readOpening
  | closing : ReadsAt s ')' s.readClosing
  | bar : ReadsAt s '|' (.ok ({ s with frame := s.frame.nextBranch }.moveTo (s.cur.advance 1)))
  | unread {c : Char} {e : ReadError} (h : Bounds.read? s.cur = .error e) : ReadsAt s c (.error e)
  | quantifier {c : Char} {bounds : Bounds} {after : Cursor} (hc : c ∉ ['(', ')', '|'])
      (h : Bounds.read? s.cur = .ok (some (bounds, after))) :
      ReadsAt s c (s.applyQuantifier bounds after)
  | bracket : ReadsAt s '[' s.readBracket
  | escape : ReadsAt s '\\' s.readEscape
  | single {c : Char} (hc : c ∉ ['(', ')', '|', '[', '\\'])
      (h : Bounds.read? s.cur = .ok none) :
      ReadsAt s c (.ok (s.readOne (s.frame.modes.single c)))

theorem readsAt {c : Char} {rest : Text} (hrest : s.cur.rest = c :: rest) :
    s.ReadsAt c (s.readAt c) := by
  by_cases hopen : c = '('
  · subst hopen
    exact .opening
  by_cases hclose : c = ')'
  · subst hclose
    exact .closing
  by_cases hbar : c = '|'
  · subst hbar
    exact .bar
  by_cases hbracket : c = '['
  · subst hbracket
    rw [readAt_bracket hrest]
    exact .bracket
  by_cases hescape : c = '\\'
  · subst hescape
    rw [readAt_escape hrest]
    exact .escape
  -- only what is left asks for a quantifier
  cases hread : Bounds.read? s.cur with
  | error e =>
    have hfail : s.readAt c = .error e := by
      simp only [readAt, hread, bind, Except.bind, beq_iff_eq, hopen, hclose, hbar, if_false]
    rw [hfail]
    exact .unread hread
  | ok quantifier =>
    cases quantifier with
    | some found =>
      have hc : c ∉ ['(', ')', '|'] := by simp [hopen, hclose, hbar]
      rw [readAt_quantifier hc hread]
      exact .quantifier hc hread
    | none =>
      have hc : c ∉ ['(', ')', '|', '[', '\\'] := by simp [hopen, hclose, hbar, hbracket, hescape]
      rw [readAt_single hc hread]
      exact .single hc hread

theorem move_of_readAt {c : Char} {rest : Text} (hrest : s.cur.rest = c :: rest)
    (h : s.readAt c = .ok s') : Move s s' := by
  have hreads := readsAt hrest
  generalize s.readAt c = result at hreads h
  cases hreads with
  | opening => exact move_of_readOpening hrest h
  | closing => exact move_of_readClosing hrest h
  | bar =>
    obtain rfl := Except.ok.inj h
    exact .nextBranch (Cursor.passes_next hrest)
  | unread => simp at h
  | quantifier _ hread => exact move_of_applyQuantifier hread h
  | bracket => exact move_of_readBracket hrest h
  | escape => exact move_of_readEscape hrest h
  | single =>
    obtain rfl := Except.ok.inj h
    exact move_of_leaf (Cursor.passes_next hrest) (s.frame.modes.isPlain_single c)

/-- A step that succeeds makes a move. -/
theorem move_of_step {c : Char} {rest : Text} (hrest : s.cur.rest = c :: rest)
    (h : s.step c = .ok s') : Move s s' := by
  unfold step at h
  split at h
  · next hskipped =>
    obtain rfl := Except.ok.inj h
    exact .skip (passes_of_skipped? hskipped)
  · exact move_of_readAt hrest h

/-! ## Section 4: Runs -/

/-- One step, on the next character. -/
def Next (s s' : ParserState) : Prop :=
  ∃ c rest, s.cur.rest = c :: rest ∧ s.step c = .ok s'

/-- Steps lead from `s` to `s'`. -/
def RunsTo (s s' : ParserState) : Prop :=
  Relation.ReflTransGen Next s s'

/-- A step skips what verbose mode leaves out or reads the next character. -/
theorem Next.cases (h : Next s s') :
    (∃ after, s.skipped? = some after ∧ s' = s.moveTo after) ∨
      ∃ c rest result, s.cur.rest = c :: rest ∧ s.ReadsAt c result ∧ result = .ok s' := by
  obtain ⟨c, rest, hrest, h⟩ := h
  unfold step at h
  split at h
  next after hskipped => exact .inl ⟨after, hskipped, (Except.ok.inj h).symm⟩
  next => exact .inr ⟨c, rest, _, hrest, readsAt hrest, h⟩

/-- A closing parenthesis is skipped in no mode. -/
theorem step_closing {rest : Text} (hrest : s.cur.rest = ')' :: rest) :
    s.step ')' = s.readClosing := by
  rw [step_of_not_skipped (skipped?_eq_none hrest (by decide +kernel) (by decide))]
  rfl

theorem next_closing {rest : Text} {frame : Frame} {outer : List Frame} {node : Node} {count : Nat}
    (hrest : s.cur.rest = ')' :: rest) (houter : s.outer = frame :: outer)
    (hclose : s.frame.close s.count (s.cur.advance 1).pos = .ok (node, count)) :
    Next s { s with
      cur := s.cur.advance 1, frame := frame.push node, outer := outer, count := count } := by
  refine ⟨')', rest, hrest, ?_⟩
  rw [step_closing hrest, readClosing, houter]
  exact Read.bind_eq_ok.mpr ⟨(node, count), hclose, rfl⟩

/-- Outside of all groups there is nothing to close. -/
theorem step_unbalanced {rest : Text} (hrest : s.cur.rest = ')' :: rest) (houter : s.outer = []) :
    s.step ')' = .fail .unbalancedParenthesis s.cur.pos := by
  rw [step_closing hrest, readClosing, houter]

theorem Next.move (h : Next s s') : Move s s' := by
  obtain ⟨c, rest, hrest, hstep⟩ := h
  exact move_of_step hrest hstep

theorem Next.rest_lt (h : Next s s') : s'.cur.rest.length < s.cur.rest.length :=
  h.move.passes.rest_lt

/-- What the start satisfies and every move keeps, holds after every run. -/
theorem RunsTo.invariant {P : ParserState → Prop}
    (hmove : ∀ {s s' : ParserState}, P s → Move s s' → P s') (h : s.RunsTo s') (hs : P s) :
    P s' := by
  induction h with
  | refl => exact hs
  | tail _ hnext ih => exact hmove ih hnext.move

theorem Next.unique {t t' : ParserState} (h : Next s t) (h' : Next s t') : t = t' := by
  obtain ⟨c, rest, hrest, hstep⟩ := h
  obtain ⟨c', rest', hrest', hstep'⟩ := h'
  obtain ⟨rfl, -⟩ := List.cons.inj (hrest.symm.trans hrest')
  exact Except.ok.inj (hstep.symm.trans hstep')

/-- A run to the end of the text comes through every state that can be
    reached. -/
theorem RunsTo.to_end {t last : ParserState} (h : s.RunsTo t) (hlast : s.RunsTo last)
    (hend : last.cur.rest = []) : t.RunsTo last := by
  induction h using Relation.ReflTransGen.head_induction_on with
  | refl => exact hlast
  | @head s u hnext _ ih =>
    rcases hlast.cases_head with rfl | ⟨u', hnext', hrest⟩
    · obtain ⟨c, rest, hrest, -⟩ := hnext
      simp [hend] at hrest
    · obtain rfl := hnext.unique hnext'
      exact ih hrest

/-- What `run` computes with enough fuel is what it computes from any state
    that it comes through. -/
theorem run_eq_of_runsTo (h : s.RunsTo s') {fuel : Nat} (hfuel : s.cur.rest.length ≤ fuel) :
    ∃ fuel', s'.cur.rest.length ≤ fuel' ∧ run fuel s = run fuel' s' := by
  induction h using Relation.ReflTransGen.head_induction_on generalizing fuel with
  | refl => exact ⟨fuel, hfuel, rfl⟩
  | @head s t hnext _ ih =>
    have hlt := hnext.rest_lt
    obtain ⟨c, rest, hrest, hstep⟩ := hnext
    cases fuel with
    | zero => omega
    | succ fuel =>
      obtain ⟨fuel', hfuel', hrun⟩ := ih (Nat.le_of_lt_succ (Nat.lt_of_lt_of_le hlt hfuel))
      refine ⟨fuel', hfuel', ?_⟩
      simp only [run, hrest, hstep, hrun]

/-- At the end of the text a run stops. -/
theorem run_of_rest_nil (hend : s.cur.rest = []) (fuel : Nat) : run fuel s = .ok s := by
  cases fuel <;> simp [run, hend]

theorem run_of_runsTo (h : s.RunsTo s') (hend : s'.cur.rest = []) {fuel : Nat}
    (hfuel : s.cur.rest.length ≤ fuel) : run fuel s = .ok s' := by
  obtain ⟨fuel', -, hrun⟩ := run_eq_of_runsTo h hfuel
  rw [hrun, run_of_rest_nil hend]

theorem runsTo_of_run {fuel : Nat} (hfuel : s.cur.rest.length ≤ fuel)
    (h : run fuel s = .ok s') : s.RunsTo s' ∧ s'.cur.rest = [] := by
  induction fuel generalizing s with
  | zero =>
    obtain rfl := Except.ok.inj h
    exact ⟨.refl, List.eq_nil_of_length_eq_zero (Nat.le_zero.mp hfuel)⟩
  | succ fuel ih =>
    unfold run at h
    split at h
    · next hrest =>
      obtain rfl := Except.ok.inj h
      exact ⟨.refl, hrest⟩
    · next c rest hrest =>
      split at h
      · next t hstep =>
        have hnext : Next s t := ⟨c, rest, hrest, hstep⟩
        have hlt := hnext.rest_lt
        obtain ⟨hruns, hend⟩ := ih (by omega) h
        exact ⟨.head hnext hruns, hend⟩
      · simp at h

/-- The pattern ends well exactly when no group is open, the outermost
    frame closes and the references are good. -/
theorem finish_eq_ok_iff {root : Node} :
    s.finish = .ok root ↔
      s.outer = [] ∧ (∃ count, s.frame.close s.count s.cur.pos = .ok (root, count)) ∧
        s.checkReferences = .ok () := by
  unfold finish
  cases houter : s.outer with
  | cons frame outer => simp
  | nil =>
    simp only [true_and]
    constructor
    · intro h
      obtain ⟨⟨node, count⟩, hclose, h⟩ := Read.bind_eq_ok.mp h
      obtain ⟨⟨⟩, hcheck, hroot⟩ := Read.bind_eq_ok.mp h
      obtain rfl := Except.ok.inj hroot
      exact ⟨⟨count, hclose⟩, hcheck⟩
    · intro hends
      obtain ⟨⟨count, hclose⟩, hcheck⟩ := hends
      exact Read.bind_eq_ok.mpr ⟨_, hclose, Read.bind_eq_ok.mpr ⟨_, hcheck, rfl⟩⟩

end ParserState

/-! ## Section 5: Parsing -/

/-- A text is parsed as a pattern exactly when steps lead to its end and
    the last state ends well. -/
theorem Pattern.parse_eq_ok_iff {text : Text} {p : Pattern} :
    Pattern.parse text = .ok p ↔
      ∃ last root, (ParserState.initial text).RunsTo last ∧ last.cur.rest = [] ∧
        last.finish = .ok root ∧ p = ⟨text, root, last.groups, last.names⟩ := by
  have hread : Pattern.parse text = .ok p ↔ Pattern.read text = .ok p := by
    unfold Pattern.parse
    cases Pattern.read text <;> simp [Except.mapError]
  rw [hread, Pattern.read, Read.bind_eq_ok]
  constructor
  · intro hfound
    obtain ⟨last, hrun, h⟩ := hfound
    obtain ⟨root, hroot, hp⟩ := Read.bind_eq_ok.mp h
    obtain ⟨hruns, hend⟩ := ParserState.runsTo_of_run (s := .initial text) (Nat.le_refl _) hrun
    exact ⟨last, root, hruns, hend, hroot, (Except.ok.inj hp).symm⟩
  · intro hsteps
    obtain ⟨last, root, hruns, hend, hroot, rfl⟩ := hsteps
    exact ⟨last, ParserState.run_of_runsTo hruns hend (Nat.le_refl _),
      Read.bind_eq_ok.mpr ⟨root, hroot, rfl⟩⟩

/-- A step that fails ends the parse. -/
theorem Pattern.parse_of_step_error {text : Text} {s : ParserState} {c : Char} {tail : Text}
    {e : ReadError} (hruns : (ParserState.initial text).RunsTo s) (hrest : s.cur.rest = c :: tail)
    (hstep : s.step c = .error e) : Pattern.parse text = .error (failure text e) := by
  have hrun : ParserState.run text.length (.initial text) = .error e := by
    obtain ⟨fuel, hfuel, hrun⟩ := ParserState.run_eq_of_runsTo hruns (Nat.le_refl _)
    rw [hrest, List.length_cons] at hfuel
    obtain ⟨fuel, rfl⟩ := Nat.exists_eq_add_of_lt hfuel
    have hfail : ParserState.run (tail.length + fuel + 1) s = .error e := by
      simp only [ParserState.run, hrest, hstep]
    exact hrun.trans hfail
  rw [Pattern.parse, Pattern.read, hrun]
  rfl

/-- An end that fails ends the parse. -/
theorem Pattern.parse_of_finish_error {text : Text} {last : ParserState} {e : ReadError}
    (hruns : (ParserState.initial text).RunsTo last) (hend : last.cur.rest = [])
    (hfinish : last.finish = .error e) : Pattern.parse text = .error (failure text e) := by
  have hrun : ParserState.run text.length (.initial text) = .ok last :=
    ParserState.run_of_runsTo hruns hend (Nat.le_refl _)
  rw [Pattern.parse, Pattern.read, hrun]
  show (last.finish >>= _).mapError _ = _
  rw [hfinish]
  rfl

/-- A state that a run with little fuel comes to can be reached. -/
theorem ParserState.exists_of_run {fuel : Nat} {s : ParserState} {check : ParserState → Bool}
    (h : (ParserState.run fuel s).toOption.any check = true) :
    ∃ s', s.RunsTo s' ∧ check s' = true := by
  induction fuel generalizing s with
  | zero => exact ⟨s, .refl, h⟩
  | succ fuel ih =>
    unfold run at h
    split at h
    next => exact ⟨s, .refl, h⟩
    next c rest hrest =>
      split at h
      next t hstep =>
        obtain ⟨s', hruns, hcheck⟩ := ih h
        exact ⟨s', .head ⟨c, rest, hrest, hstep⟩ hruns, hcheck⟩
      next => nomatch h

/-- A check that can be run on a text tells something of its pattern. -/
theorem Pattern.exists_of_check {text : Text} {check : Pattern → Bool}
    (h : (Pattern.parse text).toOption.any check = true) :
    ∃ p, Pattern.parse text = .ok p ∧ check p = true := by
  cases hparse : Pattern.parse text with
  | error e => simp [hparse, Except.toOption] at h
  | ok p => exact ⟨p, rfl, by simpa [hparse, Except.toOption] using h⟩

end RegexInsight
