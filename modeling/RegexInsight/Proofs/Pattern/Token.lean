import Mathlib
import RegexInsight.Proofs.Pattern.Head
import RegexInsight.Proofs.Pattern.Offset

/-! # Tokens

    Where no flag is in force, each step reads one token: a leaf, an
    opening, a bar, a closing or a quantifier.  A token does not depend on
    where it stands.  In any other state without flags, the same characters
    are read as the same token, however the text behind them is cut; only
    the number of a group is counted anew, and a name must not be taken. -/

namespace RegexInsight

/-! ## Section 1: Self-contained patterns -/

/-- The nodes that neither change how the text after them is read nor refer
    to what stands elsewhere. -/
def Label.isSelfContained : Label → Bool
  | flags _ => false
  | backreference _ => false
  | recursion _ => false
  | conditional _ => false
  | group (.nonCapturing (some _)) => false
  | _ => true

theorem Label.isSelfContained_of_isReference {label : Label} (h : label.isReference = true) :
    label.isSelfContained = false := by
  cases label <;> first | rfl | exact Bool.noConfusion h

/-- Everything read so far, and everything opened, is self-contained. -/
structure ParserState.IsSelfContained (s : ParserState) : Prop where
  nodes : ∀ n ∈ s.explicit, n.label.isSelfContained = true
  openers : ∀ opener ∈ s.openers, ∀ label, opener.label? = some label →
    label.isSelfContained = true

/-! ## Section 2: Groups without their numbers -/

namespace GroupKind

/-- A group without its number. -/
def unnumbered : GroupKind → GroupKind
  | capturing _ => capturing 0
  | named _ name spelling => named 0 name spelling
  | other => other

/-- The name of a named group. -/
def name? (kind : GroupKind) : Option Text :=
  kind.named?.map Prod.fst

end GroupKind

namespace Opener

/-- An opener without the number of its group. -/
def unnumbered : Opener → Opener
  | group kind => group kind.unnumbered
  | other => other

/-- The opener of a group or a lookaround. -/
inductive Encloses : Opener → Prop where
  | group {kind : GroupKind} : Encloses (.group kind)
  | lookaround {direction : LookDirection} {negated : Bool} :
      Encloses (.lookaround direction negated)

/-- The name that an opener gives to its group. -/
def names (opener : Opener) : List Text :=
  opener.groupKind?.toList.filterMap GroupKind.name?

end Opener

/-! ## Section 3: Reading elsewhere -/

/-- The text from the cursor on, cut after `n` characters. -/
def Cursor.keep (cur : Cursor) (n : Nat) : Cursor :=
  ⟨cur.pos, cur.rest.take n⟩

theorem Cursor.Cut.of_keep {cur cut : Cursor} {m n : Nat} (h : (cur.keep m).Cut cut n) :
    cur.Cut cut n :=
  ⟨h.before.trans (List.take_prefix m cur.rest), h.length⟩

/-- The span of a character code that stops before the digits, so that it
    does not show which character is meant. -/
def isBareCode (source : Text) : Label → Bool
  | .literal char _ =>
    ["\\x".toList, "\\u".toList, "\\U".toList].contains source ||
      (source == "\\0".toList && char != 0)
  | _ => false

namespace ParserState

variable {s s' t : ParserState} {cur : Cursor} {label : Label} {opener : Opener} {n width : Nat}
  {c : Char} {rest : Text}

/-- The characters at the cursor are read as a leaf. -/
def LeafAt (cur : Cursor) (label : Label) (n : Nat) : Prop :=
  ∀ t : ParserState, t.frame.modes = .none → cur.Cut t.cur n →
    t.ReadsLeaf label t.references (t.cur.rest.drop n)

/-- The characters at the cursor open a frame. -/
def OpeningAt (cur : Cursor) (opener : Opener) (n : Nat) : Prop :=
  ∀ t : ParserState, t.frame.modes = .none → cur.Cut t.cur n →
    (t.names.map Prod.fst ++ opener.names).Nodup →
    ∃ opener' groups names, opener'.unnumbered = opener.unnumbered ∧
      names.map Prod.fst = t.names.map Prod.fst ++ opener.names ∧
      t.Opens opener' { t with groups := groups, names := names } (t.cur.rest.drop n)

/-- The characters at the cursor put a quantifier over the item before. -/
def QuantifierAt (cur : Cursor) (bounds : Bounds) (mode : QuantifierMode) (n : Nat) : Prop :=
  ∀ (t : ParserState) (item : Node) (items : List Node), t.frame.modes = .none →
    cur.Cut t.cur n → t.frame.quantified = false → t.frame.items = item :: items →
    item.label.isRepeatable = true →
    ∃ after : Cursor, after.rest = t.cur.rest.drop n ∧
      Next t (t.putQuantifier bounds mode item items after)

/-- The first `width` characters at the cursor, the span of a leaf, are read
    as that leaf by themselves, unless they are a bare code. -/
def SpanShows (cur : Cursor) (label : Label) (width : Nat) : Prop :=
  isBareCode (cur.rest.take width) label = true ∨ LeafAt (cur.keep width) label width

/-- What one step reads from a state without flags. -/
inductive Token (s : ParserState) : ParserState → Prop where
  | leaf {label : Label} {width n : Nat} (hpos : 0 < n) (hlength : n ≤ s.cur.rest.length)
      (hlabel : label.IsPlain .none) (hread : LeafAt s.cur label n) (hle : width ≤ n)
      (hspan : SpanShows s.cur label width) :
      Token s ((s.addLeaf ⟨label, s.cur.pos, s.cur.pos + width⟩).moveTo (s.cur.advance n))
  | opening {opener : Opener} {groups n : Nat} {names : List (Text × Nat)} (hpos : 0 < n)
      (hlength : n ≤ s.cur.rest.length) (hopener : opener.Encloses)
      (hopens : OpeningAt s.cur opener n) :
      Token s ({ s with groups := groups, names := names }.enter opener s.cur.pos .none
        (s.cur.advance n))
  | bar {rest : Text} (hrest : s.cur.rest = '|' :: rest) :
      Token s ({ s with frame := s.frame.nextBranch }.moveTo (s.cur.advance 1))
  | close {frame : Frame} {outer : List Frame} {node : Node} {count : Nat} {rest : Text}
      (hrest : s.cur.rest = ')' :: rest) (houter : s.outer = frame :: outer)
      (hclose : s.frame.close s.count (s.cur.advance 1).pos = .ok (node, count)) :
      Token s { s with
        cur := s.cur.advance 1, frame := frame.push node, outer := outer, count := count }
  | quantify {bounds : Bounds} {mode : QuantifierMode} {item : Node} {items : List Node} {n : Nat}
      (hpos : 0 < n) (hlength : n ≤ s.cur.rest.length) (hfirst : s.frame.quantified = false)
      (hitems : s.frame.items = item :: items) (hitem : item.label.isRepeatable = true)
      (hread : QuantifierAt s.cur bounds mode n) :
      Token s (s.putQuantifier bounds mode item items (s.cur.advance n))

/-! ## Section 4: Leaves -/

theorem LeafAt.keep (h : LeafAt cur label n) : LeafAt (cur.keep n) label n :=
  fun t hmodes hcut => h t hmodes hcut.of_keep

/-- A leaf whose span has all its characters. -/
theorem LeafAt.spanShows (h : LeafAt cur label n) : SpanShows cur label n :=
  .inr h.keep

/-- A leaf of one character. -/
theorem leafAt_of_readOne (hrest : cur.rest = c :: rest)
    (h : ∀ t : ParserState, t.frame.modes = .none → cur.Cut t.cur 1 →
      t.readAt c = .ok (t.readOne label)) : LeafAt cur label 1 := by
  intro t hmodes hcut
  obtain ⟨tail, htail, -⟩ := hcut.exists_cons hrest Nat.one_pos
  rw [htail]
  exact readsLeaf_of_readOne hmodes htail (h t hmodes hcut)

theorem leafAt_of_escape (hrest : cur.rest = '\\' :: rest) (hpos : 0 < n)
    (h : Escape.ReadsLeaf .none cur label width n) : LeafAt cur label n := by
  intro t hmodes hcut
  obtain ⟨tail, htail, -⟩ := hcut.exists_cons hrest hpos
  exact readsLeaf_of_escape hmodes htail rfl (h.cut t.groups t.cur hcut.agrees)

/-- The span of an octal code that stops before the digits shows the null
    character. -/
theorem leafAt_null (hrest : cur.rest = '\\' :: '0' :: rest) :
    LeafAt (cur.keep 2) (Modes.none.literal 0) 2 := by
  have hkeep : (cur.keep 2).rest = ['\\', '0'] := by
    simp [Cursor.keep, hrest]
  intro t hmodes hcut
  obtain ⟨tail, htail, hshort⟩ := hcut.exists_cons_cons hkeep Nat.one_lt_two
  obtain rfl : tail = [] := List.prefix_nil.mp hshort
  have hread : Escape.read .none t.groups t.cur =
      .ok (.leaf (Modes.none.literal 0) t.cur.pos (t.cur.pos + 2), t.cur.advance 2) := by
    have hdrop : t.cur.rest.drop 1 = ['0'] := by rw [htail]; rfl
    have hbehind : (t.cur.advance 2).rest = [] := by rw [Cursor.advance_rest, htail]; rfl
    simp only [Escape.read, hdrop, Escape.readOctal, hbehind]
    rfl
  exact readsLeaf_of_escape hmodes htail rfl hread

/-- An escape is a leaf, and its span shows it or is a bare code. -/
theorem spanShows_of_escape (hrest : cur.rest = '\\' :: c :: rest) (hpos : 0 < n)
    (hread : Escape.ReadsLeaf .none cur label width n) (h : Escape.Spans .none c label width n) :
    SpanShows cur label width := by
  have hsource : cur.rest.take 2 = ['\\', c] := by rw [hrest]; rfl
  cases h with
  | whole => exact (leafAt_of_escape hrest hpos hread).spanShows
  | @hexadecimal _ code _ hc =>
    left
    rw [hsource]
    unfold Escape.hexWidth? at hc
    split at hc
    case h_4 => simp at hc
    all_goals rfl
  | @octal code =>
    cases hcode : code != 0 with
    | true =>
      left
      rw [hsource, Modes.literal, isBareCode, hcode]
      rfl
    | false =>
      right
      obtain rfl : code = 0 := by simpa using hcode
      exact leafAt_null hrest

/-! ## Section 5: Openings -/

/-- A head that opens a frame without flags does so wherever it stands. -/
theorem HeadAt.openingAt {head : Head} (h : HeadAt cur head n)
    (hrest : cur.rest = '(' :: rest) (index : Nat) (hopener : head.opener? index = some opener) :
    OpeningAt cur opener n := by
  intro t hmodes hcut hfresh
  obtain ⟨tail, htail, -⟩ := hcut.exists_cons hrest h.pos
  have hnext : ∀ u, head.act t t.cur.pos (t.cur.advance n) = .ok u → Next t u := by
    intro u hact
    exact next_of_readAt hmodes htail ((h.reads t hcut.agrees).trans hact)
  cases head with
  | capturing =>
    obtain rfl := Option.some.inj hopener
    refine ⟨.group (.capturing (t.groups + 1)), t.groups + 1, t.names, rfl,
      (List.append_nil _).symm, t.cur.pos, t.cur.advance n, rfl, hnext _ ?_⟩
    rw [Head.act, enterCapturing, hmodes]
  | plain | atomic | lookaround =>
    obtain rfl := Option.some.inj hopener
    refine ⟨_, t.groups, t.names, rfl, (List.append_nil _).symm, t.cur.pos, t.cur.advance n, rfl,
      hnext _ ?_⟩
    rw [Head.act, hmodes]
  | named name spelling =>
    obtain rfl := Option.some.inj hopener
    refine ⟨.group (.named (t.groups + 1) name spelling), t.groups + 1,
      t.names ++ [(name, t.groups + 1)], rfl, List.map_append, t.cur.pos, t.cur.advance n, rfl,
      hnext _ ?_⟩
    -- the name is fresh, so that the parser accepts it
    have hnew : ¬ (t.names.any fun entry => entry.1 == name) = true := by
      intro htaken
      obtain ⟨entry, hentry, hname⟩ := List.any_eq_true.mp htaken
      have hmem : name ∈ t.names.map Prod.fst := eq_of_beq hname ▸ List.mem_map_of_mem hentry
      exact (List.nodup_append.mp hfresh).2.2 name hmem name List.mem_cons_self rfl
    rw [Head.act, if_neg hnew, hmodes]
  | _ => simp [Head.opener?] at hopener

/-- A step to a state that is not self-contained reads no token. -/
theorem not_isSelfContained_of_leaf {t : ParserState} {leaf : Escape.Leaf} {cur : Cursor}
    (hleaf : leaf.label.isSelfContained = false) :
    ¬ ((t.addLeaf leaf).moveTo cur).IsSelfContained := by
  intro h
  have hexplicit : leaf.label.isImplicit = false := by
    cases hlabel : leaf.label <;> first | rfl | (rw [hlabel] at hleaf; exact Bool.noConfusion hleaf)
  have hmem := (mem_explicit_addLeaf (s := t) hexplicit).mpr (.inr rfl)
  have hself := h.nodes _ hmem
  rw [Node.label_build, hleaf] at hself
  exact Bool.noConfusion hself

theorem not_isSelfContained_of_enter {t : ParserState} {label : Label} {start : Nat}
    {modes : Modes} (hlabel : opener.label? = some label)
    (hself : label.isSelfContained = false) :
    ¬ (t.enter opener start modes cur).IsSelfContained := by
  intro h
  have hopener := h.openers opener List.mem_cons_self label hlabel
  rw [hself] at hopener
  exact Bool.noConfusion hopener

theorem token_of_readOpening (hmodes : s.frame.modes = .none) (hrest : s.cur.rest = '(' :: rest)
    (hcomment : ¬ ['(', '?', '#'] <+: s.cur.rest) (hself : s'.IsSelfContained)
    (h : s.readOpening = .ok s') : Token s s' := by
  obtain ⟨head, n, hhead, hact⟩ := exists_headAt hrest h
  -- a comment is left out, and references and flags are not self-contained
  cases head with
  | comment inner =>
    obtain ⟨-, htake⟩ := hhead.comment inner rfl
    have hmark : ['(', '?', '#'] <+: s.cur.rest.take n := by
      rw [htake]
      exact ⟨inner ++ [')'], rfl⟩
    exact absurd (hmark.trans (List.take_prefix n _)) hcomment
  | capturing =>
    obtain rfl := Except.ok.inj hact
    rw [enterCapturing, hmodes]
    exact .opening hhead.pos hhead.length .group (hhead.openingAt hrest (s.groups + 1) rfl)
  | plain | atomic =>
    obtain rfl := Except.ok.inj hact
    rw [hmodes]
    exact .opening hhead.pos hhead.length .group (hhead.openingAt hrest (s.groups + 1) rfl)
  | lookaround direction negated =>
    obtain rfl := Except.ok.inj hact
    rw [hmodes]
    exact .opening hhead.pos hhead.length .lookaround (hhead.openingAt hrest (s.groups + 1) rfl)
  | named name spelling =>
    obtain ⟨-, hstate⟩ := Read.guard_eq_ok.mp hact
    obtain rfl := Except.ok.inj hstate
    rw [hmodes]
    exact .opening hhead.pos hhead.length .group (hhead.openingAt hrest (s.groups + 1) rfl)
  | numberCall target =>
    obtain ⟨reference, -, hstate⟩ := Read.bind_eq_ok.mp hact
    obtain rfl := Except.ok.inj hstate
    exact absurd hself (not_isSelfContained_of_leaf rfl)
  | backreference | nameCall | wholeCall | flags =>
    obtain rfl := Except.ok.inj hact
    exact absurd hself (not_isSelfContained_of_leaf rfl)
  | conditional | flagGroup =>
    obtain rfl := Except.ok.inj hact
    exact absurd hself (not_isSelfContained_of_enter rfl rfl)

/-! ## Section 6: Leaves and quantifiers -/

theorem token_of_leafAt {label : Label} {stop : Nat} (hpos : 0 < n)
    (hlength : n ≤ s.cur.rest.length) (hlabel : label.IsPlain .none) (h : LeafAt s.cur label n)
    (hstop : stop = s.cur.pos + n) :
    Token s ((s.addLeaf ⟨label, s.cur.pos, stop⟩).moveTo (s.cur.advance n)) := by
  subst hstop
  exact .leaf hpos hlength hlabel h (Nat.le_refl n) h.spanShows

theorem token_of_readBracket (hmodes : s.frame.modes = .none) (hrest : s.cur.rest = '[' :: rest)
    (h : s.readBracket = .ok s') : Token s s' := by
  obtain ⟨⟨leaf, after⟩, hleaf, hstate⟩ := Read.bind_eq_ok.mp h
  obtain rfl := Except.ok.inj hstate
  rw [hmodes] at hleaf
  obtain ⟨-, hlabel⟩ := Bracket.read_spec hrest hleaf
  obtain ⟨n, hpos, hlength, rfl, hstart, hstop, hcut⟩ := Bracket.read_cut hrest hleaf
  obtain ⟨label, start, stop⟩ := leaf
  obtain rfl : start = s.cur.pos := hstart
  refine token_of_leafAt hpos hlength hlabel ?_ hstop
  intro t hmodes' hcut'
  obtain ⟨tail, htail, -⟩ := hcut'.exists_cons hrest hpos
  refine ⟨t.cur.pos, t.cur.pos + n, t.cur.advance n, rfl, next_of_readAt hmodes' htail ?_⟩
  rw [readAt_bracket htail, readBracket, hmodes', hcut t.cur hcut'.agrees]
  rfl

theorem token_of_readEscape (hmodes : s.frame.modes = .none) (hrest : s.cur.rest = '\\' :: rest)
    (hquoted : ¬ ['\\', 'Q'] <+: s.cur.rest) (hself : s'.IsSelfContained)
    (h : s.readEscape = .ok s') : Token s s' := by
  obtain ⟨⟨reading, after⟩, hreading, hstate⟩ := Read.bind_eq_ok.mp h
  obtain rfl := Except.ok.inj hstate
  rw [hmodes] at hreading
  obtain ⟨-, hsound⟩ := Escape.read_spec hrest hreading
  -- a backslash at the end is no escape
  obtain ⟨c, tail, rfl⟩ : ∃ c tail, rest = c :: tail := by
    cases rest with
    | nil => simp [Escape.read, hrest] at hreading
    | cons c tail => exact ⟨c, tail, rfl⟩
  have hc : c ≠ 'Q' := by
    rintro rfl
    exact hquoted ⟨tail, hrest.symm⟩
  rcases Escape.read_cut hrest hc hreading with
    hreference | ⟨label, width, n, rfl, rfl, htwo, hread, hspans⟩
  · obtain ⟨leaf, hleaves, hleaf⟩ := hreference
    refine absurd hself ?_
    rw [hleaves]
    exact not_isSelfContained_of_leaf (Label.isSelfContained_of_isReference hleaf)
  · have hlabel : label.IsPlain .none := by
      rcases hsound.isPlain_or_isReference List.mem_cons_self with hplain | hreference
      · exact hplain
      · have hfalse := Label.isSelfContained_of_isReference hreference
        exact absurd hself (not_isSelfContained_of_leaf hfalse)
    have hpos : 0 < n := Nat.lt_of_lt_of_le Nat.two_pos htwo
    exact .leaf hpos hread.length hlabel (leafAt_of_escape hrest hpos hread) (hspans.le htwo)
      (spanShows_of_escape hrest hpos hread hspans)

theorem token_of_applyQuantifier {bounds : Bounds} {after : Cursor} (hrest : s.cur.rest = c :: rest)
    (hc : c ∉ ['(', ')', '|'])
    (hread : Bounds.read? s.cur = .ok (some (bounds, after)))
    (h : s.applyQuantifier bounds after = .ok s') : Token s s' := by
  obtain ⟨hbounds, hfirst, item, items, mode, stop, hitems, hitem, hmode, rfl⟩ :=
    applyQuantifier_eq_ok_iff.mp h
  obtain ⟨n, hpos, hlength, rfl, hcut⟩ := Bounds.read?_cut hread
  obtain ⟨m, hlength', rfl, hcut'⟩ := QuantifierMode.read_cut hmode
  rw [Cursor.advance_rest, List.length_drop] at hlength'
  rw [Cursor.advance_advance]
  refine .quantify (by omega) (by omega) hfirst hitems hitem ?_
  intro t item' items' hmodes htcut htfirst htitems htitem
  obtain ⟨tail, htail, -⟩ := htcut.exists_cons hrest (by omega)
  have hbounds' := hcut t.cur (htcut.mono (Nat.le_add_right n m)).agrees
  have hmode' := hcut' (t.cur.advance n) htcut.advance.agrees
  rw [Cursor.advance_advance] at hmode'
  refine ⟨t.cur.advance (n + m), rfl, next_of_readAt hmodes htail ?_⟩
  rw [readAt_quantifier hc hbounds']
  exact applyQuantifier_eq_ok_iff.mpr
    ⟨hbounds, htfirst, item', items', mode, _, htitems, htitem, hmode', rfl⟩

/-- The characters that stand for themselves or for a leaf of their own. -/
theorem token_of_readOne {label : Label}
    (hrest : s.cur.rest = c :: rest) (hlabel : label.IsPlain .none)
    (h : ∀ t : ParserState, t.frame.modes = .none → s.cur.Cut t.cur 1 →
      t.readAt c = .ok (t.readOne label)) : Token s (s.readOne label) :=
  token_of_leafAt Nat.one_pos (by simp [hrest]) hlabel (leafAt_of_readOne hrest h) rfl

/-- The leaf that a character is by itself. -/
def single (c : Char) : Label :=
  if c == '.' then Modes.none.dot
  else if c == '^' then .anchor .lineStart
  else if c == '$' then .anchor .lineEnd
  else Modes.none.literal c.toNat

theorem isPlain_single (c : Char) : (single c).IsPlain .none :=
  Modes.none.isPlain_single c

theorem readAt_single_none (hmodes : t.frame.modes = .none)
    (hc : c ∉ ['(', ')', '|', '[', '\\']) (hread : Bounds.read? t.cur = .ok none) :
    t.readAt c = .ok (t.readOne (single c)) := by
  rw [readAt_single hc hread, hmodes]
  rfl

theorem token_of_readAt (hmodes : s.frame.modes = .none) (hrest : s.cur.rest = c :: rest)
    (hcomment : ¬ ['(', '?', '#'] <+: s.cur.rest) (hquoted : ¬ ['\\', 'Q'] <+: s.cur.rest)
    (hself : s'.IsSelfContained) (h : s.readAt c = .ok s') : Token s s' := by
  have hreads := readsAt hrest
  generalize s.readAt c = result at hreads h
  cases hreads with
  | opening => exact token_of_readOpening hmodes hrest hcomment hself h
  | closing =>
    obtain ⟨frame, outer, node, count, houter, hnode, rfl⟩ := exists_of_readClosing h
    exact .close hrest houter hnode
  | bar =>
    obtain rfl := Except.ok.inj h
    exact .bar hrest
  | unread => simp at h
  | quantifier hc hread => exact token_of_applyQuantifier hrest hc hread h
  | bracket => exact token_of_readBracket hmodes hrest h
  | escape => exact token_of_readEscape hmodes hrest hquoted hself h
  | single hc hread =>
    obtain rfl := Except.ok.inj h
    rw [hmodes]
    refine token_of_readOne hrest (isPlain_single c) fun t hmodes' hcut => ?_
    -- nor does a quantifier begin where the text is cut
    exact readAt_single_none hmodes' hc (Bounds.read?_eq_none_of_agrees hcut.agrees hread)

/-- A step from a state without flags reads a token. -/
theorem Next.token (h : Next s s') (hmodes : s.frame.modes = .none)
    (hcomment : ¬ ['(', '?', '#'] <+: s.cur.rest) (hquoted : ¬ ['\\', 'Q'] <+: s.cur.rest)
    (hself : s'.IsSelfContained) : Token s s' := by
  obtain ⟨c, rest, hrest, hstep⟩ := h
  rw [step_of_modes hmodes] at hstep
  exact token_of_readAt hmodes hrest hcomment hquoted hself hstep

end ParserState

end RegexInsight
