import Mathlib
import RegexInsight.Proofs.Pattern.Head
import RegexInsight.Proofs.Pattern.Span

/-! # Gaps before quantifiers

    A quantifier applies to the last item of its branch, but it need not
    follow it at once.  Comments, empty quotes and, in verbose mode,
    whitespace may stand between the two, and an item may end later than
    its span says: the span of a character code stops before the digits,
    and that of a quoted character before the end of the quote.  After
    every step the parser stands behind the last item, such a remainder of
    it, and what was passed over since. -/

namespace RegexInsight

/-! ## Section 1: The text between two cursors -/

namespace Cursor

/-- `shown` stands between the cursors `a` and `b`. -/
structure Over (a : Cursor) (shown : Text) (b : Cursor) : Prop where
  rest : a.rest = shown ++ b.rest
  pos : b.pos = a.pos + shown.length

variable {a b c : Cursor} {text shown more tail : Text} {m n : Nat}

theorem Over.refl (a : Cursor) : a.Over [] a :=
  ⟨rfl, rfl⟩

theorem Over.trans (h : a.Over shown b) (h' : b.Over more c) : a.Over (shown ++ more) c where
  rest := by rw [h.rest, h'.rest, List.append_assoc]
  pos := by
    have hfirst := h.pos
    have hsecond := h'.pos
    rw [List.length_append]
    omega

theorem over_advance (h : a.rest = shown ++ tail) : a.Over shown (a.advance shown.length) where
  rest := by rw [advance_rest, h, List.drop_left]
  pos := rfl

theorem over_advance_append (h : a.rest = shown ++ (more ++ tail)) :
    a.Over shown (a.advance shown.length) ∧
      (a.advance shown.length).Over more (a.advance (shown.length + more.length)) := by
  have hbehind : (a.advance shown.length).rest = more ++ tail := by
    rw [advance_rest, h, List.drop_left]
  exact ⟨over_advance h, advance_advance a _ _ ▸ over_advance hbehind⟩

/-- What is passed of a text is a piece of it. -/
theorem Over.slice (h : a.Over shown b) (hplace : a.rest = text.drop a.pos) :
    slice text a.pos b.pos = shown := by
  have hlength : b.pos - a.pos = shown.length := by
    have hpos := h.pos
    omega
  rw [RegexInsight.slice, ← hplace, h.rest, hlength, List.take_left]

theorem Over.place (h : a.Over shown b) (hplace : a.rest = text.drop a.pos) :
    b.rest = text.drop b.pos := by
  have hdrop : a.rest.drop shown.length = b.rest := by rw [h.rest, List.drop_left]
  rw [← hdrop, hplace, List.drop_drop, h.pos]

theorem Over.ofOffset_eq (h : a.Over shown b) (hplace : a.rest = text.drop a.pos) :
    ofOffset text b.pos = b := by
  rw [ofOffset, ← h.place hplace]

/-- The characters from the `m`-th to the `n`-th stand where these are. -/
theorem over_between (hplace : a.rest = text.drop a.pos) (hle : m ≤ n) (hlength : n ≤ a.rest.length) :
    (ofOffset text (a.pos + m)).Over ((a.rest.drop m).take (n - m)) (a.advance n) where
  rest := by
    have hfrom : (ofOffset text (a.pos + m)).rest = a.rest.drop m := by
      rw [hplace, List.drop_drop]
      rfl
    have hbehind : (a.advance n).rest = (a.rest.drop m).drop (n - m) := by
      rw [advance_rest, List.drop_drop, Nat.add_sub_cancel' hle]
    rw [hfrom, hbehind, List.take_append_drop]
  pos := by
    show a.pos + n = a.pos + m + _
    rw [List.length_take, List.length_drop]
    omega

end Cursor

/-- An escape is read from its own characters alone. -/
theorem Escape.ReadsLeaf.alone {modes : Modes} {cur : Cursor} {label : Label} {width n : Nat}
    (h : Escape.ReadsLeaf modes cur label width n) (groups start : Nat) :
    Escape.read modes groups ⟨start, cur.rest.take n⟩ =
      .ok (.leaf label start (start + width), ⟨start + n, []⟩) := by
  have hlength : (cur.rest.take n).length = n := by
    rw [List.length_take]
    exact Nat.min_eq_left h.length
  have hcut : cur.Cut ⟨start, cur.rest.take n⟩ n := ⟨List.take_prefix n _, hlength.ge⟩
  have hdrop : (cur.rest.take n).drop n = [] := List.drop_eq_nil_of_le hlength.le
  rw [h.cut groups _ hcut.agrees, Cursor.advance, hdrop]

/-! ## Section 2: What may stand in a gap -/

/-- What leaves no trace in the tree, in any mode. -/
inductive PassedOver : Text → Prop where
  | comment {inner : Text} (hinner : ')' ∉ inner) : PassedOver ('(' :: '?' :: '#' :: inner ++ [')'])
  | emptyQuote : PassedOver ['\\', 'Q', '\\', 'E']

/-- What may be passed over between an item and its quantifier; whitespace
    and line comments only in verbose mode. -/
inductive Filler : Text → Prop where
  | passedOver {text : Text} (h : PassedOver text) : Filler text
  | blank {c : Char} (hc : isSpace c = true) : Filler [c]
  | lineComment {inner : Text} (hinner : '\n' ∉ inner) : Filler ('#' :: inner ++ ['\n'])

/-- The end of an item that its span leaves out. -/
inductive Remainder (text : Text) (item : Node) : Text → Prop where
  | nothing : Remainder text item []
  /-- The digits of a character code: with them, it is read as the item. -/
  | code {c : Char} {tail : Text} (hc : (Escape.hexWidth? c).isSome = true ∨ c = '0')
      (hsource : item.textIn text = ['\\', c])
      (hread : ∃ modes, ∀ groups start, Escape.read modes groups ⟨start, '\\' :: c :: tail⟩ =
        .ok (.leaf item.label start (start + 2), ⟨start + (2 + tail.length), []⟩)) :
      Remainder text item tail
  /-- The end of a quote: the item is its last character. -/
  | quoteEnd {modes : Modes} {c : Char} (hsource : item.textIn text = [c])
      (hlabel : item.label = modes.literal c.toNat) : Remainder text item ['\\', 'E']

/-- What stands from the end of the span of an item up to its quantifier:
    the remainder of the item, then what was passed over. -/
structure IsGap (text : Text) (item : Node) (tail : Text) (fillers : List Text) : Prop where
  remainder : Remainder text item tail
  fillers : ∀ filler ∈ fillers, Filler filler

theorem IsGap.concat {text tail filler : Text} {item : Node} {fillers : List Text}
    (h : IsGap text item tail fillers) (hfiller : Filler filler) :
    IsGap text item tail (fillers ++ [filler]) where
  remainder := h.remainder
  fillers := by
    intro other hother
    rcases List.mem_append.mp hother with hold | hnew
    · exact h.fillers other hold
    · obtain rfl := List.mem_singleton.mp hnew
      exact hfiller

namespace ParserState

/-! ## Section 3: Where a step stops -/

/-- What a step leaves behind the last item of the current branch. -/
inductive Lands (text : Text) (s s' : ParserState) : Prop where
  /-- Nothing is appended, and something is passed over. -/
  | passes {filler : Text} (hitems : s'.frame.items = s.frame.items) (hfiller : Filler filler)
      (hover : s.cur.Over filler s'.cur)
  /-- The text has ended, where no quantifier can follow. -/
  | ends (hend : s'.cur.rest = [])
  /-- A branch begins. -/
  | begins (hitems : s'.frame.items = [])
  /-- An item is appended, and the step stops where it does. -/
  | whole {item : Node} {items : List Node} (hitems : s'.frame.items = item :: items)
      (hstop : item.stop = s'.cur.pos)
  /-- An item is appended, and the step stops behind a remainder of it. -/
  | partly {item : Node} {items : List Node} {tail : Text} (hitems : s'.frame.items = item :: items)
      (htail : Remainder text item tail) (hover : (Cursor.ofOffset text item.stop).Over tail s'.cur)

variable {text : Text} {s s' : ParserState} {c : Char} {rest : Text}

theorem lands_of_skipped? {cur : Cursor} (h : s.skipped? = some cur) :
    Lands text s (s.moveTo cur) := by
  unfold skipped? at h
  split at h
  next => simp at h
  next c rest hrest =>
    split at h
    next => simp at h
    split at h
    next hspace =>
      obtain rfl := Option.some.inj h
      have hone : s.cur.rest = [c] ++ rest := hrest
      exact .passes rfl (.blank hspace) (Cursor.over_advance hone)
    split at h
    next hhash =>
      obtain rfl := Option.some.inj h
      split
      next found after hfound =>
        obtain ⟨hinner, ⟨tail, htail⟩, rfl⟩ := Cursor.upTo?_eq_some_iff.mp hfound
        -- the comment begins with its mark
        cases found with
        | nil =>
          rw [hrest, eq_of_beq hhash] at htail
          simp at htail
        | cons d inner =>
          have hd : d = '#' := by
            rw [hrest] at htail
            exact (List.cons.inj htail).1.symm.trans (eq_of_beq hhash)
          subst hd
          have hline : s.cur.rest = ('#' :: inner ++ ['\n']) ++ tail := by simp [htail]
          have hover := Cursor.over_advance hline
          rw [List.length_append] at hover
          exact .passes rfl (.lineComment fun hmem => hinner (List.mem_cons_of_mem _ hmem)) hover
      next => exact .ends List.drop_length
    next => simp at h

/-- Only a comment opens nothing and appends nothing. -/
theorem lands_of_readOpening (hrest : s.cur.rest = '(' :: rest) (h : s.readOpening = .ok s') :
    Lands text s s' := by
  obtain ⟨head, n, hhead, hact⟩ := exists_headAt hrest h
  cases head with
  | comment inner =>
    obtain ⟨hinner, htake⟩ := hhead.comment inner rfl
    obtain rfl := Except.ok.inj hact
    -- the comment is all that is passed
    have hsplit := List.take_append_drop n s.cur.rest
    have hlength := List.length_take_of_le hhead.length
    rw [htake] at hsplit hlength
    have hover := Cursor.over_advance hsplit.symm
    rw [hlength] at hover
    exact .passes rfl (.passedOver (.comment hinner)) hover
  | named name spelling =>
    obtain ⟨-, hstate⟩ := Read.guard_eq_ok.mp hact
    obtain rfl := Except.ok.inj hstate
    exact .begins rfl
  | numberCall target =>
    obtain ⟨reference, -, hstate⟩ := Read.bind_eq_ok.mp hact
    obtain rfl := Except.ok.inj hstate
    exact .whole rfl rfl
  | backreference | nameCall | wholeCall | flags =>
    obtain rfl := Except.ok.inj hact
    exact .whole rfl rfl
  | capturing | plain | atomic | lookaround | conditional | flagGroup =>
    obtain rfl := Except.ok.inj hact
    exact .begins rfl

/-- A frame below the root closes into a node that stops with it. -/
theorem stop_close {f : Frame} {count stop count' : Nat} {node : Node}
    (h : f.close count stop = .ok (node, count')) (hroot : f.opener ≠ .root) : node.stop = stop := by
  cases f.closed_of_close h with
  | root hopener => exact absurd hopener hroot
  | conditional | lookaround | group => rfl

theorem lands_of_readClosing (hnormal : s.IsNormal) (h : s.readClosing = .ok s') :
    Lands text s s' := by
  obtain ⟨frame, outer, node, count, houter, hclose, rfl⟩ := exists_of_readClosing h
  exact .whole rfl (stop_close hclose (hnormal.nested_of_outer houter).1)

theorem lands_of_applyQuantifier {bounds : Bounds} {cur : Cursor}
    (h : s.applyQuantifier bounds cur = .ok s') : Lands text s s' := by
  obtain ⟨-, -, item, items, mode, stop, -, -, -, rfl⟩ := applyQuantifier_eq_ok_iff.mp h
  exact .whole rfl rfl

theorem lands_of_readBracket (h : s.readBracket = .ok s') : Lands text s s' := by
  obtain ⟨⟨leaf, after⟩, hleaf, hstate⟩ := Read.bind_eq_ok.mp h
  obtain rfl := Except.ok.inj hstate
  obtain ⟨⟨members, after'⟩, -, hpair⟩ := Read.bind_eq_ok.mp hleaf
  obtain ⟨rfl, rfl⟩ := Prod.mk.inj (Except.ok.inj hpair)
  exact .whole rfl rfl

/-- The last leaf of a quoted text is its last character. -/
theorem items_quoted (modes : Modes) (pos : Nat) (before : Text) (c : Char) (s : ParserState) :
    ∃ count items, ((Escape.quotedLeaves modes pos (before ++ [c])).foldl addLeaf s).frame.items =
      .build count (modes.literal c.toNat) (pos + before.length) (pos + before.length + 1) [] ::
        items := by
  induction before generalizing pos s with
  | nil => exact ⟨s.count, s.frame.items, rfl⟩
  | cons d before ih =>
    obtain ⟨count, items, hitems⟩ :=
      ih (pos + 1) (s.addLeaf ⟨modes.literal d.toNat, pos, pos + 1⟩)
    have hplace : pos + 1 + before.length = pos + (d :: before).length := by
      rw [List.length_cons]
      omega
    rw [hplace] at hitems
    exact ⟨count, items, hitems⟩

/-- Behind a quote that is not empty, the last item is its last character, and
    only the mark of the end is left out. -/
theorem lands_of_quote {quoted tail : Text} (hplace : s.cur.rest = text.drop s.cur.pos)
    (hrest : s.cur.rest = ['\\', 'Q'] ++ rest)
    (hinside : (s.cur.advance 2).rest = quoted ++ (['\\', 'E'] ++ tail)) :
    Lands text s (((Escape.quotedLeaves s.frame.modes (s.cur.advance 2).pos quoted).foldl
      addLeaf s).moveTo ((s.cur.advance 2).advance (quoted.length + 2))) := by
  have hbegin : s.cur.Over ['\\', 'Q'] (s.cur.advance 2) := Cursor.over_advance hrest
  obtain ⟨hbody, hend⟩ := Cursor.over_advance_append hinside
  rcases List.eq_nil_or_concat quoted with rfl | ⟨before, c, rfl⟩
  · exact .passes rfl (.passedOver .emptyQuote) (hbegin.trans (hbody.trans hend))
  · rw [List.concat_eq_append] at hend hinside ⊢
    rw [List.append_assoc] at hinside
    obtain ⟨count, items, hitems⟩ := items_quoted s.frame.modes (s.cur.advance 2).pos before c s
    obtain ⟨hbefore, hlast⟩ := Cursor.over_advance_append hinside
    have hmiddle := hbefore.place (hbegin.place hplace)
    refine .partly hitems (.quoteEnd (hlast.slice hmiddle) rfl) ?_
    have hstop := hlast.ofOffset_eq hmiddle
    rw [List.length_append] at hend ⊢
    exact hstop ▸ hend

theorem lands_of_readQuoted {reading : Escape.Reading} {after : Cursor}
    (hplace : s.cur.rest = text.drop s.cur.pos) (hrest : s.cur.rest = '\\' :: 'Q' :: rest)
    (h : Escape.readQuoted s.frame.modes (s.cur.advance 2) = (reading, after)) :
    Lands text s ((reading.leaves.foldl addLeaf s).moveTo after) := by
  obtain ⟨quoted, hquotes, rfl⟩ := Escape.quotes_of_readQuoted h
  cases hquotes with
  | ended hfound =>
    obtain ⟨⟨tail, htail⟩, -⟩ := Cursor.beforePair?_eq_some_iff.mp hfound
    exact lands_of_quote hplace hrest htail
  | unended => exact .ends List.drop_length

/-- The span of an escape leaves out nothing but the digits of a code. -/
theorem lands_of_escapeAt {modes : Modes} {after : Cursor} {reading : Escape.Reading}
    (hplace : s.cur.rest = text.drop s.cur.pos) (hrest : s.cur.rest = '\\' :: c :: rest)
    (h : Escape.EscapeAt modes c s.cur after reading) :
    Lands text s ((reading.leaves.foldl addLeaf s).moveTo after) := by
  obtain ⟨label, width, n, rfl, rfl, htwo, hread, hspans⟩ := h
  have hcode : (Escape.hexWidth? c).isSome = true ∨ c = '0' → width = 2 →
      Lands text s (([⟨label, s.cur.pos, s.cur.pos + width⟩].foldl addLeaf s).moveTo
        (s.cur.advance n)) := by
    intro hc hwidth
    subst hwidth
    -- the remainder is what the escape has behind its first two characters
    have hover := Cursor.over_between hplace htwo hread.length
    have htake : s.cur.rest.take n = '\\' :: c :: (s.cur.rest.drop 2).take (n - 2) := by
      obtain ⟨k, rfl⟩ := Nat.exists_eq_add_of_le' htwo
      simp [hrest]
    have hlength : n = 2 + ((s.cur.rest.drop 2).take (n - 2)).length := by
      have hle := hread.length
      rw [List.length_take, List.length_drop]
      omega
    have hsource : slice text s.cur.pos (s.cur.pos + 2) = ['\\', c] := by
      rw [slice, ← hplace, hrest, Nat.add_sub_cancel_left]
      rfl
    refine .partly rfl (.code hc hsource ⟨modes, fun groups start => ?_⟩) hover
    rw [← htake, ← hlength]
    exact hread.alone groups start
  cases hspans with
  | whole => exact .whole rfl rfl
  | hexadecimal hc => exact hcode (.inl hc) rfl
  | octal => exact hcode (.inr rfl) rfl

theorem lands_of_readEscape (hplace : s.cur.rest = text.drop s.cur.pos)
    (hrest : s.cur.rest = '\\' :: rest) (h : s.readEscape = .ok s') : Lands text s s' := by
  obtain ⟨⟨reading, after⟩, hread, hstate⟩ := Read.bind_eq_ok.mp h
  obtain rfl := Except.ok.inj hstate
  obtain ⟨-, hsound⟩ := Escape.read_spec hrest hread
  cases hsound with
  | backreference => exact .whole rfl rfl
  | recursion => exact .whole rfl rfl
  | whole => exact .whole rfl rfl
  | plain hplain =>
    rcases Escape.read_plain_cases hrest hread hplain with
      ⟨rest', rfl, hquoted⟩ | ⟨c, rest', rfl, hat⟩
    · exact lands_of_readQuoted hplace hrest hquoted
    · exact lands_of_escapeAt hplace hrest hat

/-- Wherever a step stops, it is behind the last item, a remainder of it or
    something that it passes over. -/
theorem Next.lands (hplace : s.cur.rest = text.drop s.cur.pos) (hnormal : s.IsNormal)
    (h : Next s s') : Lands text s s' := by
  rcases h.cases with ⟨after, hskipped, rfl⟩ | ⟨c, rest, result, hrest, hreads, h⟩
  · exact lands_of_skipped? hskipped
  cases hreads with
  | opening => exact lands_of_readOpening hrest h
  | closing => exact lands_of_readClosing hnormal h
  | bar =>
    obtain rfl := Except.ok.inj h
    exact .begins rfl
  | unread => simp at h
  | quantifier => exact lands_of_applyQuantifier h
  | bracket => exact lands_of_readBracket h
  | escape => exact lands_of_readEscape hplace hrest h
  | single =>
    obtain rfl := Except.ok.inj h
    exact .whole rfl rfl

/-! ## Section 4: Where a run stops -/

/-- Behind the last item of the current branch there is a gap up to the
    cursor, unless the text has ended. -/
def LeavesGap (text : Text) (s : ParserState) : Prop :=
  s.cur.rest = [] ∨ ∀ item items, s.frame.items = item :: items →
    ∃ tail fillers, IsGap text item tail fillers ∧
      (Cursor.ofOffset text item.stop).Over (tail ++ fillers.flatten) s.cur

/-- Every step leaves a gap. -/
theorem LeavesGap.next (h : s.LeavesGap text) (hplace : s.cur.rest = text.drop s.cur.pos)
    (hnormal : s.IsNormal) (hnext : Next s s') : s'.LeavesGap text := by
  have hsome : s.cur.rest ≠ [] := by
    obtain ⟨c, rest, hrest, -⟩ := hnext
    simp [hrest]
  have hplace' : s'.cur.rest = text.drop s'.cur.pos := by
    obtain ⟨⟨k, -, hcur⟩, -⟩ := hnext.move.passes
    rw [hcur, Cursor.advance_rest, Cursor.advance_pos, hplace, List.drop_drop]
  cases hnext.lands hplace hnormal with
  | ends hend => exact .inl hend
  | begins hitems =>
    right
    intro item items hcons
    rw [hitems] at hcons
    simp at hcons
  | @passes filler hitems hfiller hover =>
    right
    intro item items hcons
    rw [hitems] at hcons
    obtain ⟨tail, fillers, hgap, hbefore⟩ := (h.resolve_left hsome) item items hcons
    -- one more filler stands behind the same item
    refine ⟨tail, fillers ++ [filler], hgap.concat hfiller, ?_⟩
    have hflat : tail ++ (fillers ++ [filler]).flatten = tail ++ fillers.flatten ++ filler := by simp
    rw [hflat]
    exact hbefore.trans hover
  | @whole last before hitems hstop =>
    right
    intro item items hcons
    obtain ⟨rfl, -⟩ := List.cons.inj (hitems.symm.trans hcons)
    refine ⟨[], [], ⟨.nothing, nofun⟩, ?_⟩
    have hcur : Cursor.ofOffset text last.stop = s'.cur := by
      rw [hstop, Cursor.ofOffset, ← hplace']
    rw [hcur]
    exact .refl _
  | @partly last before tail hitems htail hover =>
    right
    intro item items hcons
    obtain ⟨rfl, -⟩ := List.cons.inj (hitems.symm.trans hcons)
    refine ⟨tail, [], ⟨htail, nofun⟩, ?_⟩
    rw [List.flatten_nil, List.append_nil]
    exact hover

theorem LeavesGap.of_runsTo (h : (ParserState.initial text).RunsTo s) : s.LeavesGap text := by
  induction h with
  | refl => exact .inr nofun
  | tail hruns hnext ih =>
    exact ih.next (RemembersTargets.of_runsTo hruns).place (IsNormal.of_runsTo hruns) hnext

end ParserState

/-! ## Section 5: Quantifiers in a text -/

/-- A text that is read as a quantifier from its first character to its
    last. -/
def IsQuantifierText (form : Text) (bounds : Bounds) (mode : QuantifierMode) : Prop :=
  ∃ after, Bounds.read? (.ofText form) = .ok (some (bounds, after)) ∧
    QuantifierMode.read after = (mode, ⟨form.length, []⟩)

/-- What is read as a quantifier is read so by itself. -/
theorem exists_isQuantifierText {cur after stop : Cursor} {bounds : Bounds} {mode : QuantifierMode}
    (hbounds : Bounds.read? cur = .ok (some (bounds, after)))
    (hmode : QuantifierMode.read after = (mode, stop)) :
    ∃ form, cur.Over form stop ∧ IsQuantifierText form bounds mode := by
  obtain ⟨n, -, hn, rfl, hcut⟩ := Bounds.read?_cut hbounds
  obtain ⟨m, hm, rfl, hcut'⟩ := QuantifierMode.read_cut hmode
  have hsum : n + m ≤ cur.rest.length := by
    rw [Cursor.advance_rest, List.length_drop] at hm
    omega
  have hlength : (cur.rest.take (n + m)).length = n + m := by
    rw [List.length_take]
    exact Nat.min_eq_left hsum
  have hform : cur.Cut (.ofText (cur.rest.take (n + m))) (n + m) :=
    ⟨List.take_prefix _ _, hlength.ge⟩
  refine ⟨cur.rest.take (n + m), ⟨?_, ?_⟩, _, hcut _ (hform.mono (Nat.le_add_right n m)).agrees, ?_⟩
  · rw [Cursor.advance_advance, Cursor.advance_rest, List.take_append_drop]
  · rw [hlength, Cursor.advance_advance, Cursor.advance_pos]
  · rw [hcut' _ hform.advance.agrees, Cursor.advance_advance]
    have hend : (Cursor.ofText (cur.rest.take (n + m))).advance (n + m) = ⟨n + m, []⟩ := by
      rw [Cursor.advance, Cursor.ofText, Nat.zero_add, List.drop_eq_nil_of_le hlength.le]
    rw [hend, hlength]

/-- A quantifier stands behind its operand and a gap. -/
def Node.StandsBehindOperand (text : Text) (n : Node) : Prop :=
  ∀ bounds mode, n.label = .quantifier bounds mode →
    ∃ operand tail fillers form, n.children = [operand] ∧ IsGap text operand tail fillers ∧
      slice text operand.stop n.stop = tail ++ fillers.flatten ++ form ∧
      IsQuantifierText form bounds mode

/-- No frame closes into a quantifier. -/
theorem Opener.isQuantifier_of_label? {opener : Opener} {label : Label}
    (h : opener.label? = some label) : label.isQuantifier = false := by
  rcases cases_of_label? h with ⟨_, -, h⟩ | ⟨_, _, -, h⟩ | ⟨_, -, h⟩ <;> rw [h] <;> rfl

namespace ParserState

variable {text : Text} {s s' : ParserState}

/-- A quantifier that a move adds stands over the last item. -/
theorem Move.mem_quantifier (h : Move s s') {n : Node} (hn : n ∈ s'.explicit)
    (hlabel : n.label.isQuantifier = true) :
    n ∈ s.explicit ∨ ∃ bounds mode item items after, s.frame.items = item :: items ∧
      Bounds.read? s.cur = .ok (some (bounds, after)) ∧
      QuantifierMode.read after = (mode, s'.cur) ∧
      n = .build s.count (.quantifier bounds mode) item.start s'.cur.pos [item] := by
  -- nothing else that a move adds is a quantifier
  have hleaf : ∀ {t : ParserState} {leaf : Escape.Leaf}, leaf.label.isImplicit = false →
      leaf.label.isQuantifier = false → t.explicit = s.explicit → n ∈ (t.addLeaf leaf).explicit →
      n ∈ s.explicit := by
    intro t leaf himplicit hquantifier hsame hmem
    rcases (mem_explicit_addLeaf himplicit).mp hmem with hold | rfl
    · exact hsame ▸ hold
    · rw [Node.label_build, hquantifier] at hlabel
      exact Bool.noConfusion hlabel
  cases h with
  | skip => exact .inl hn
  | plain _ hleaves =>
    obtain ⟨new, hnew, hlabels⟩ := exists_explicit_foldl_addLeaf (s := s) hleaves
    rcases (hnew n).mp hn with hold | hmem
    · exact .inl hold
    · rw [(Label.isItem_of_isPlain (hlabels n hmem)).2] at hlabel
      exact Bool.noConfusion hlabel
  | flags => exact .inl (hleaf rfl rfl rfl hn)
  | backreference => exact .inl (hleaf rfl rfl rfl hn)
  | recursion => exact .inl (hleaf rfl rfl rfl hn)
  | whole => exact .inl (hleaf rfl rfl rfl hn)
  | enter => exact .inl (by simpa [explicit, ParserState.enter] using hn)
  | enterCapturing =>
    exact .inl (by simpa [explicit, ParserState.enterCapturing, ParserState.enter] using hn)
  | enterNamed => exact .inl (by simpa [explicit, ParserState.enter] using hn)
  | enterConditional => exact .inl (by simpa [explicit, ParserState.enter, refer] using hn)
  | nextBranch => exact .inl (by simpa [explicit, moveTo] using hn)
  | @close frame outer node count cur hcur houter hclose =>
    left
    rcases Frame.explicit_close hclose with ⟨-, hnode⟩ | ⟨hopener, hnode⟩
    · simp only [explicit, houter, Frame.explicit_push, hnode, List.flatMap_cons,
        List.mem_append] at hn ⊢
      tauto
    · have hne : n ≠ node := by
        rintro rfl
        exact Bool.noConfusion (hlabel.symm.trans (Opener.isQuantifier_of_label? hopener))
      simp only [explicit, houter, Frame.explicit_push, hnode, List.flatMap_cons,
        List.mem_append, List.mem_cons] at hn ⊢
      tauto
  | quantify _ _ _ hitems _ hread =>
    obtain ⟨after, hbounds, hmode⟩ := hread
    rcases (mem_explicit_putQuantifier hitems).mp hn with hold | hnew
    · exact .inl hold
    · exact .inr ⟨_, _, _, _, after, hitems, hbounds, hmode, hnew⟩

/-- Every quantifier that was read stands behind its operand. -/
theorem standsBehindOperand_of_runsTo (h : (ParserState.initial text).RunsTo s) :
    ∀ n ∈ s.explicit, n.StandsBehindOperand text := by
  induction h with
  | refl => exact nofun
  | @tail t s hruns hnext ih =>
    intro n hn bounds mode hlabel
    have hquantifier : n.label.isQuantifier = true := by rw [hlabel]; rfl
    rcases hnext.move.mem_quantifier hn hquantifier with hold | hnew
    · exact ih n hold bounds mode hlabel
    · obtain ⟨bounds', mode', item, items, after, hitems, hbounds, hmode, rfl⟩ := hnew
      obtain ⟨rfl, rfl⟩ : bounds' = bounds ∧ mode' = mode := by simpa using hlabel
      obtain ⟨form, hform, hreads⟩ := exists_isQuantifierText hbounds hmode
      have hsome : t.cur.rest ≠ [] := by
        obtain ⟨c, rest, hrest, -⟩ := hnext
        simp [hrest]
      obtain ⟨tail, fillers, hgap, hover⟩ :=
        ((LeavesGap.of_runsTo hruns).resolve_left hsome) item items hitems
      exact ⟨item, tail, fillers, form, rfl, hgap, (hover.trans hform).slice rfl, hreads⟩

end ParserState

/-- In a pattern, every quantifier stands behind its operand and a gap. -/
theorem Pattern.standsBehindOperand_of_parse {text : Text} {p : Pattern}
    (h : Pattern.parse text = .ok p) {n : Node} (hn : n ∈ p.root.preorder) :
    n.StandsBehindOperand text := by
  obtain ⟨last, hruns, hexplicit⟩ := Pattern.exists_explicit_of_parse h
  intro bounds mode hlabel
  have hmem : n ∈ p.root.explicit := Node.mem_explicit.mpr ⟨hn, by rw [hlabel]; rfl⟩
  rw [hexplicit] at hmem
  exact ParserState.standsBehindOperand_of_runsTo hruns n hmem bounds mode hlabel

end RegexInsight
