import Mathlib
import RegexInsight.Proofs.Pattern.Faithful
import RegexInsight.Proofs.Pattern.Mirror
import RegexInsight.Proofs.Pattern.Scope
import RegexInsight.Proofs.Pattern.Unspanned

/-! # Reading inside a plain group

    `(?:p)` is read like `p`, with one frame more below and one closing
    parenthesis more ahead.  No reader that found its end in `p` looks at the
    parenthesis, and one that did not find it there would have failed, or
    does not take a parenthesis either.  Only what goes on up to the end of
    the text would swallow it: quoted text, and a comment that verbose mode
    skips. -/

namespace RegexInsight

/-! ## Section 1: Cursors and frames -/

namespace Cursor

/-- The second text has a closing parenthesis more. -/
def EnclosedBy (cur other : Cursor) : Prop :=
  other.rest = cur.rest ++ [')']

namespace EnclosedBy

variable {cur other : Cursor} {n : Nat} {c d : Char} {rest : Text}

theorem advance (h : cur.EnclosedBy other) (hle : n ≤ cur.rest.length) :
    (cur.advance n).EnclosedBy (other.advance n) := by
  unfold EnclosedBy at h ⊢
  rw [advance_rest, advance_rest, h, List.drop_append_of_le_length hle]

theorem next (h : cur.EnclosedBy other) (hrest : cur.rest = c :: rest) :
    (cur.advance 1).EnclosedBy (other.advance 1) :=
  h.advance (by simp [hrest])

theorem agrees (h : cur.EnclosedBy other) (hle : n ≤ cur.rest.length) : cur.Agrees other n := by
  refine ⟨cur.rest, [], [')'], (List.append_nil _).symm, h, hle, ?_, ?_⟩
  · intro c hc
    exact .inr (Option.some.inj hc).symm
  · intro hpair
    -- a pair has two characters
    obtain ⟨before, after, heq⟩ := hpair
    have hlength := congrArg List.length heq
    simp only [List.length_append, List.length_cons, List.length_nil] at hlength
    omega

theorem cons (h : cur.EnclosedBy other) (hrest : cur.rest = c :: rest) :
    other.rest = c :: (rest ++ [')']) := by
  rw [h, hrest, List.cons_append]

end EnclosedBy

end Cursor

/-- What a frame closes into inside a plain group. -/
def Opener.inGroup : Opener → Opener
  | root => .group (.nonCapturing none)
  | other => other

theorem Opener.inGroup_of_ne {opener : Opener} (h : opener ≠ .root) : opener.inGroup = opener := by
  cases opener <;> first | rfl | exact absurd rfl h

namespace Frame

variable {f g : Frame} {count count' stop : Nat} {node : Node}

/-- A frame inside a plain group. -/
def inGroup (f : Frame) : Frame :=
  { f with opener := f.opener.inGroup }

/-- The second frame is the first one inside a plain group, up to spans. -/
def EnclosedBy (f g : Frame) : Prop :=
  g.unspanned = f.inGroup.unspanned

namespace EnclosedBy

theorem modes (h : f.EnclosedBy g) : g.modes = f.modes := by
  have hmodes := congrArg Frame.modes h
  exact hmodes

theorem quantified (h : f.EnclosedBy g) : g.quantified = f.quantified := by
  have hquantified := congrArg Frame.quantified h
  exact hquantified

theorem items (h : f.EnclosedBy g) :
    g.items.map Node.unspanned = f.items.map Node.unspanned := by
  have hitems := congrArg Frame.items h
  exact hitems

theorem opened {opener : Opener} (hopener : opener ≠ .root) (start start' : Nat) (modes : Modes) :
    (opened opener start modes).EnclosedBy (.opened opener start' modes) := by
  unfold EnclosedBy inGroup
  rw [show (Frame.opened opener start modes).opener = opener from rfl, Opener.inGroup_of_ne hopener]
  rfl

theorem push (h : f.EnclosedBy g) {item item' : Node} (hitem : item'.unspanned = item.unspanned) :
    (f.push item).EnclosedBy (g.push item') := by
  unfold EnclosedBy at h ⊢
  rw [unspanned_push, h, hitem]
  rfl

theorem nextBranch (h : f.EnclosedBy g) : f.nextBranch.EnclosedBy g.nextBranch := by
  unfold EnclosedBy at h ⊢
  rw [unspanned_nextBranch, h, ← unspanned_nextBranch]
  rfl

theorem withModes (h : f.EnclosedBy g) (modes : Modes) :
    { f with modes := modes }.EnclosedBy { g with modes := modes } := by
  have hsame := congrArg (fun frame : Frame => { frame with modes := modes }) h
  exact hsame

theorem withItems (h : f.EnclosedBy g) {items items' : List Node} (quantified : Bool)
    (hitems : items'.map Node.unspanned = items.map Node.unspanned) :
    { f with items := items, quantified := quantified }.EnclosedBy
      { g with items := items', quantified := quantified } := by
  unfold EnclosedBy at h ⊢
  show { g.unspanned with items := items'.map Node.unspanned, quantified := quantified } = _
  rw [h, hitems]
  rfl

/-- Below the root, a frame closes inside the group as it does outside. -/
theorem close (h : f.EnclosedBy g) (hopener : f.opener ≠ .root)
    (hclose : f.close count stop = .ok (node, count')) (stop' : Nat) :
    ∃ node', g.close count stop' = .ok (node', count') ∧ node'.unspanned = node.unspanned := by
  have hsame : f.inGroup = f := by
    unfold inGroup
    rw [Opener.inGroup_of_ne hopener]
  refine (close_unspanned stop').mp ?_
  rw [h, hsame]
  exact (close_unspanned stop).mpr ⟨node, hclose, rfl⟩

/-- Where the outermost frame closes into the root of a pattern, the group
    closes over it. -/
theorem close_root (h : f.EnclosedBy g) (hopener : f.opener = .root)
    (hclose : f.close count stop = .ok (node, count')) (stop' : Nat) :
    ∃ node', g.close count stop' = .ok (node', count' + 1) ∧ node'.unspanned =
      .build count' (.group (.nonCapturing none)) 0 0 [node.unspanned] := by
  refine (close_unspanned stop').mp ?_
  have hroot := (close_unspanned stop).mpr ⟨node, hclose, rfl⟩
  have hgroup : f.inGroup.unspanned =
      { f.unspanned with opener := .group (.nonCapturing none) } := by
    unfold inGroup
    rw [hopener]
    rfl
  rw [h, hgroup]
  rw [f.unspanned.close_of_root hopener] at hroot
  have hbody := Except.ok.inj hroot
  unfold Frame.close
  dsimp only [branches] at hbody ⊢
  rw [hbody]
  rfl

end EnclosedBy

end Frame

namespace ParserState

/-! ## Section 2: States -/

/-- The second state stands in a plain group where the first one does not,
    and is the same up to spans. -/
structure EnclosedBy (s t : ParserState) : Prop where
  cur : s.cur.EnclosedBy t.cur
  frame : s.frame.EnclosedBy t.frame
  outer : t.outer.map Frame.unspanned =
    s.outer.map (fun f => f.inGroup.unspanned) ++ [.opened .root 0 .none]
  count : t.count = s.count
  groups : t.groups = s.groups
  names : t.names = s.names
  targets : t.targets = s.targets

variable {s t s' : ParserState} {cur cur' after : Cursor} {start start' : Nat}

namespace EnclosedBy

theorem moveTo (h : s.EnclosedBy t) (hcur : cur.EnclosedBy cur') :
    (s.moveTo cur).EnclosedBy (t.moveTo cur') :=
  ⟨hcur, h.frame, h.outer, h.count, h.groups, h.names, h.targets⟩

theorem withFrames (h : s.EnclosedBy t) {f g : Frame} (hframe : f.EnclosedBy g) :
    { s with frame := f }.EnclosedBy { t with frame := g } :=
  ⟨h.cur, hframe, h.outer, h.count, h.groups, h.names, h.targets⟩

theorem addLeaf (h : s.EnclosedBy t) {leaf leaf' : Escape.Leaf}
    (hlabel : leaf'.label = leaf.label) : (s.addLeaf leaf).EnclosedBy (t.addLeaf leaf') where
  cur := h.cur
  frame := by
    refine h.frame.push ?_
    rw [Node.unspanned_build, Node.unspanned_build, hlabel, h.count]
  outer := h.outer
  count := congrArg (· + 1) h.count
  groups := h.groups
  names := h.names
  targets := h.targets

theorem addLeaves (h : s.EnclosedBy t) {leaves leaves' : List Escape.Leaf}
    (hlabels : leaves'.map Escape.Leaf.label = leaves.map Escape.Leaf.label) :
    (leaves.foldl ParserState.addLeaf s).EnclosedBy (leaves'.foldl ParserState.addLeaf t) := by
  induction leaves generalizing leaves' s t with
  | nil =>
    obtain rfl := List.map_eq_nil_iff.mp hlabels
    exact h
  | cons leaf rest ih =>
    obtain ⟨leaf', rest', rfl, hlabel, hrest⟩ := List.map_eq_cons_iff.mp hlabels
    exact ih (h.addLeaf hlabel) hrest

theorem refer (h : s.EnclosedBy t) (target : Text) (position position' : Nat) :
    (s.refer target position).EnclosedBy (t.refer target position') :=
  ⟨h.cur, h.frame, h.outer, h.count, h.groups, h.names, congrArg (target :: ·) h.targets⟩

theorem counting (h : s.EnclosedBy t) (groups : Nat) {names names' : List (Text × Nat)}
    (hnames : names' = names) :
    { s with groups := groups, names := names }.EnclosedBy
      { t with groups := groups, names := names' } :=
  ⟨h.cur, h.frame, h.outer, h.count, rfl, hnames, h.targets⟩

theorem enter (h : s.EnclosedBy t) {opener : Opener} (hopener : opener ≠ .root) {modes : Modes}
    (hcur : cur.EnclosedBy cur') :
    (s.enter opener start modes cur).EnclosedBy (t.enter opener start' modes cur') where
  cur := hcur
  frame := .opened hopener start start' modes
  outer := by
    show t.frame.unspanned :: t.outer.map Frame.unspanned = _
    rw [h.frame, h.outer]
    rfl
  count := h.count
  groups := h.groups
  names := h.names
  targets := h.targets

end EnclosedBy

/-- The second reader reads on to a state in the group, too. -/
def EnclosedIn (s' : ParserState) (r : Read ParserState) : Prop :=
  ∃ t', r = .ok t' ∧ s'.EnclosedBy t'

namespace EnclosedBy

theorem reads_enter (h : s.EnclosedBy t) {opener : Opener} (hopener : opener ≠ .root)
    {modes : Modes} (hcur : cur.EnclosedBy cur') :
    (s.enter opener start modes cur).EnclosedIn (.ok (t.enter opener start' modes cur')) :=
  ⟨_, rfl, h.enter hopener hcur⟩

theorem reads_addLeaf (h : s.EnclosedBy t) {leaf leaf' : Escape.Leaf}
    (hlabel : leaf'.label = leaf.label) (hcur : cur.EnclosedBy cur') :
    ((s.addLeaf leaf).moveTo cur).EnclosedIn (.ok ((t.addLeaf leaf').moveTo cur')) :=
  ⟨_, rfl, (h.addLeaf hlabel).moveTo hcur⟩

/-! ## Section 3: Openings -/

/-- A head does the same in the group. -/
theorem act {head : Head} (h : s.EnclosedBy t) (hcur : cur.EnclosedBy cur')
    (hact : head.act s start cur = .ok s') : s'.EnclosedIn (head.act t start' cur') := by
  cases head with
  | capturing =>
    obtain rfl := Except.ok.inj hact
    show EnclosedIn _ (.ok ({ t with groups := t.groups + 1 }.enter
      (.group (.capturing (t.groups + 1))) start' t.frame.modes cur'))
    rw [h.groups, h.frame.modes]
    exact (h.counting _ h.names).reads_enter Opener.noConfusion hcur
  | comment inner =>
    obtain rfl := Except.ok.inj hact
    exact ⟨_, rfl, h.moveTo hcur⟩
  | plain | atomic | lookaround | flagGroup =>
    obtain rfl := Except.ok.inj hact
    rw [Head.act, h.frame.modes]
    exact h.reads_enter Opener.noConfusion hcur
  | named name spelling =>
    obtain ⟨hfresh, hstate⟩ := Read.guard_eq_ok.mp hact
    obtain rfl := Except.ok.inj hstate
    rw [Head.act, h.names, if_neg hfresh, h.groups, h.frame.modes]
    exact (h.counting _ rfl).reads_enter Opener.noConfusion hcur
  | backreference name | nameCall name =>
    obtain rfl := Except.ok.inj hact
    exact (h.refer name start start').reads_addLeaf rfl hcur
  | wholeCall =>
    obtain rfl := Except.ok.inj hact
    exact h.reads_addLeaf rfl hcur
  | numberCall target =>
    -- the group does not count
    obtain ⟨reference, hreference, hstate⟩ := Read.bind_eq_ok.mp hact
    obtain rfl := Except.ok.inj hstate
    rw [Head.act, h.groups, Escape.absoluteReference_anywhere hreference start']
    exact (h.refer reference start start').reads_addLeaf rfl hcur
  | conditional condition =>
    obtain rfl := Except.ok.inj hact
    rw [Head.act, h.frame.modes]
    exact (h.refer condition start start').reads_enter Opener.noConfusion hcur
  | flags text =>
    obtain rfl := Except.ok.inj hact
    rw [Head.act, h.frame.modes]
    exact (h.withFrames (h.frame.withModes _)).reads_addLeaf rfl hcur

theorem readOpening {rest : Text} (h : s.EnclosedBy t) (hrest : s.cur.rest = '(' :: rest)
    (hread : s.readOpening = .ok s') : s'.EnclosedIn t.readOpening := by
  obtain ⟨head, n, hhead, hact⟩ := exists_headAt hrest hread
  rw [hhead.reads t (h.cur.agrees hhead.length)]
  exact h.act (h.cur.advance hhead.length) hact

/-! ## Section 4: Closings, quantifiers and leaves -/

theorem readClosing {rest : Text} (h : s.EnclosedBy t) (hnormal : s.IsNormal)
    (hrest : s.cur.rest = ')' :: rest) (hread : s.readClosing = .ok s') :
    s'.EnclosedIn t.readClosing := by
  obtain ⟨frame, outer, node, count, houter, hclose, rfl⟩ := exists_of_readClosing hread
  have hbelow := h.outer
  rw [houter, List.map_cons, List.cons_append] at hbelow
  obtain ⟨frame', outer', houter', hframe, hbelow⟩ := List.map_eq_cons_iff.mp hbelow
  have hopener := (hnormal.nested_of_outer houter).1
  obtain ⟨node', hclose', hnode⟩ := h.frame.close hopener hclose (t.cur.advance 1).pos
  rw [← h.count] at hclose'
  simp only [ParserState.readClosing, houter', hclose']
  refine ⟨_, rfl, ?_⟩
  exact {
    cur := h.cur.next hrest
    frame := Frame.EnclosedBy.push hframe hnode
    outer := hbelow
    count := rfl
    groups := h.groups
    names := h.names
    targets := h.targets }

theorem applyQuantifier {bounds : Bounds} (h : s.EnclosedBy t)
    (hbounds : Bounds.read? s.cur = .ok (some (bounds, after)))
    (hread : s.applyQuantifier bounds after = .ok s') :
    ∃ after', Bounds.read? t.cur = .ok (some (bounds, after')) ∧
      s'.EnclosedIn (t.applyQuantifier bounds after') := by
  obtain ⟨hordered, hfirst, item, items, mode, stop, hitems, hitem, hmode, rfl⟩ :=
    applyQuantifier_eq_ok_iff.mp hread
  obtain ⟨n, -, hlength, rfl, hcut⟩ := Bounds.read?_cut hbounds
  have hafter := h.cur.advance hlength
  obtain ⟨m, hm, rfl, hcut'⟩ := QuantifierMode.read_cut hmode
  refine ⟨_, hcut t.cur (h.cur.agrees hlength), ?_⟩
  -- the item to repeat is the same up to spans
  have hsame := h.frame.items
  rw [hitems, List.map_cons] at hsame
  obtain ⟨item', items', hitems', hitem', hbefore⟩ := List.map_eq_cons_iff.mp hsame
  have hrepeatable : item'.label.isRepeatable = true := by
    rw [← item'.label_unspanned, hitem', item.label_unspanned]
    exact hitem
  refine ⟨_, applyQuantifier_eq_ok_iff.mpr ⟨hordered, h.frame.quantified.trans hfirst, item',
    items', mode, _, hitems', hrepeatable, hcut' _ (hafter.agrees hm), rfl⟩, ?_⟩
  exact {
    cur := hafter.advance hm
    frame := by
      refine h.frame.withItems true ?_
      rw [List.map_cons, List.map_cons, Node.unspanned_build, Node.unspanned_build, hbefore,
        List.map_singleton, List.map_singleton, hitem', h.count]
    outer := h.outer
    count := congrArg (· + 1) h.count
    groups := h.groups
    names := h.names
    targets := h.targets }

theorem readEscape {rest : Text} (h : s.EnclosedBy t) (hrest : s.cur.rest = '\\' :: rest)
    (hquote : ¬ ['\\', 'Q'] <+: s.cur.rest) (hread : s.readEscape = .ok s') :
    s'.EnclosedIn t.readEscape := by
  obtain ⟨⟨reading, after⟩, hreading, hstate⟩ := Read.bind_eq_ok.mp hread
  obtain rfl := Except.ok.inj hstate
  obtain ⟨n, -, rfl, hlength, halike⟩ := Escape.readsAlike_of_read hrest hreading
  have hagrees := h.cur.agrees hlength
  have hafter := h.cur.advance hlength
  cases halike with
  | fixed hsame hsign =>
    -- only quoted text would have to end in the same place
    obtain ⟨reading', hreading', halike⟩ :=
      hsame t.frame.modes t.groups t.cur hagrees fun hquoted => absurd hquoted hquote
    rw [ParserState.readEscape, hreading']
    have hlabels : reading'.leaves.map Escape.Leaf.label =
        reading.leaves.map Escape.Leaf.label := by
      have hrecased := congrArg (fun r => r.leaves.map Escape.Leaf.label)
        (Escape.recased_of_read hrest hreading)
      rw [halike.labels, h.frame.modes, ← hrecased, Escape.Reading.recased, List.map_map]
      rfl
    refine ⟨_, rfl, EnclosedBy.moveTo (EnclosedBy.addLeaves ?_ hlabels) hafter⟩
    rw [halike.reference]
    cases reading.reference with
    | none => exact h
    | some target => exact h.refer target _ _
  | @counted written label hlabel hsame hsign =>
    -- the group does not count, so an offset leads to the same reference
    rw [hsame _ _ _ (.refl hlength)] at hreading
    obtain ⟨reference, hreference, hpair⟩ := Read.bind_eq_ok.mp hreading
    obtain ⟨rfl, -⟩ := Prod.mk.inj (Except.ok.inj hpair)
    rw [ParserState.readEscape, hsame _ _ _ hagrees, Escape.readOffset, h.groups,
      Escape.absoluteReference_anywhere hreference t.cur.pos]
    exact (h.refer reference _ _).reads_addLeaf rfl hafter

theorem readBracket {rest : Text} (h : s.EnclosedBy t) (hrest : s.cur.rest = '[' :: rest)
    (hread : s.readBracket = .ok s') : s'.EnclosedIn t.readBracket := by
  obtain ⟨⟨leaf, after⟩, hleaf, hstate⟩ := Read.bind_eq_ok.mp hread
  obtain rfl := Except.ok.inj hstate
  obtain ⟨n, -, hlength, rfl, -, -, hcut⟩ := Bracket.read_cut hrest hleaf
  rw [ParserState.readBracket, h.frame.modes, hcut t.cur (h.cur.agrees hlength)]
  exact h.reads_addLeaf rfl (h.cur.advance hlength)

theorem readOne {c : Char} {rest : Text} (h : s.EnclosedBy t) (hrest : s.cur.rest = c :: rest)
    (label : Label) : (s.readOne label).EnclosedIn (.ok (t.readOne label)) :=
  h.reads_addLeaf rfl (h.cur.next hrest)

/-! ## Section 5: One step -/

theorem readAt {c : Char} {rest : Text} (h : s.EnclosedBy t) (hnormal : s.IsNormal)
    (hrest : s.cur.rest = c :: rest) (hquote : ¬ ['\\', 'Q'] <+: s.cur.rest)
    (hread : s.readAt c = .ok s') : s'.EnclosedIn (t.readAt c) := by
  -- both texts go on with the same character
  have hagrees := h.cur.agrees (n := 1) (by rw [hrest]; exact Nat.succ_pos _)
  obtain ⟨rest', hrest'⟩ := hagrees.exists_cons hrest Nat.one_pos
  have hreads := readsAt hrest
  generalize s.readAt c = result at hreads hread
  cases hreads with
  | opening => exact h.readOpening hrest hread
  | closing => exact h.readClosing hnormal hrest hread
  | bar =>
    obtain rfl := Except.ok.inj hread
    exact ⟨_, rfl, (h.withFrames h.frame.nextBranch).moveTo (h.cur.next hrest)⟩
  | unread => simp at hread
  | quantifier hc hquantifier =>
    obtain ⟨after', hquantifier', hreads⟩ := h.applyQuantifier hquantifier hread
    rw [readAt_quantifier hc hquantifier']
    exact hreads
  | bracket =>
    rw [readAt_bracket hrest']
    exact h.readBracket hrest hread
  | escape =>
    rw [readAt_escape hrest']
    exact h.readEscape hrest hquote hread
  | single hc hquantifier =>
    obtain rfl := Except.ok.inj hread
    rw [readAt_single hc (Bounds.read?_eq_none_of_agrees hagrees hquantifier), h.frame.modes]
    exact h.readOne hrest _

/-- Where nothing is quoted and nothing skipped, a step outside the group is
    one inside. -/
theorem next (h : s.EnclosedBy t) (hnormal : s.IsNormal) (hverbose : s.frame.modes.verbose = false)
    (hquote : ¬ ['\\', 'Q'] <+: s.cur.rest) (hnext : Next s s') :
    ∃ t', Next t t' ∧ s'.EnclosedBy t' := by
  obtain ⟨c, rest, hrest, hstep⟩ := hnext
  rw [step_of_not_skipped (skipped?_of_not_verbose hverbose)] at hstep
  obtain ⟨t', hread, henclosed⟩ := h.readAt hnormal hrest hquote hstep
  refine ⟨t', ⟨c, _, h.cur.cons hrest, ?_⟩, henclosed⟩
  rw [step_of_not_skipped (skipped?_of_not_verbose (h.frame.modes ▸ hverbose))]
  exact hread

end EnclosedBy

end ParserState

/-! ## Section 6: Verbose mode -/

/-- Flags are set, for the rest of a group or for a group of their own, and a
    letter is among those that are switched on or off. -/
def Label.mentionsFlag (letter : Char) : Label → Bool
  | flags text => text.contains letter
  | group (.nonCapturing (some text)) => text.contains letter
  | _ => false

namespace FlagSet

variable {flags : FlagSet} {letter : Char}

theorem not_mem_switch {text : Text} (hflags : letter ∉ flags)
    (htext : text.contains letter = false) : letter ∉ flags.switch text := by
  intro hmem
  rw [List.contains_eq_mem, decide_eq_false_iff_not] at htext
  rcases Finset.mem_union.mp (Finset.mem_sdiff.mp hmem).1 with hold | hnew
  · exact hflags hold
  · exact htext ((List.takeWhile_prefix _).subset (List.mem_toFinset.mp hnew))

theorem not_mem_flagsInside {label : Label} (hflags : letter ∉ flags)
    (hlabel : label.mentionsFlag letter = false) : letter ∉ label.flagsInside flags := by
  unfold Label.flagsInside
  split
  next => exact not_mem_switch hflags hlabel
  next => exact hflags

theorem not_mem_flagsBehindAll {nodes : List Node} (hflags : letter ∉ flags)
    (hnodes : ∀ n ∈ nodes, ∀ around : FlagSet, letter ∉ around → letter ∉ n.flagsBehind around) :
    letter ∉ Node.flagsBehindAll flags nodes := by
  induction nodes generalizing flags with
  | nil => exact hflags
  | cons n rest ih =>
    exact ih (hnodes n List.mem_cons_self flags hflags)
      fun m hm => hnodes m (List.mem_cons_of_mem n hm)

theorem not_mem_flagsBehind {n : Node} (hn : ∀ m ∈ n.explicit, m.label.mentionsFlag letter = false)
    (hflags : letter ∉ flags) : letter ∉ n.flagsBehind flags := by
  induction n using Node.induction generalizing flags with
  | node label mark children ih =>
    -- what holds of all below holds of all below a child
    have hbelow : ∀ child ∈ children, ∀ around : FlagSet, letter ∉ around →
        letter ∉ child.flagsBehind around := by
      intro child hchild around haround
      refine ih child hchild (fun m hm => ?_) haround
      obtain ⟨hm, hexplicit⟩ := Node.mem_explicit.mp hm
      exact hn m (Node.mem_explicit.mpr ⟨Node.mem_preorder_of_child hchild hm, hexplicit⟩)
    cases label with
    | flags text =>
      have hself := Node.mem_preorder_self (.node (.flags text) mark children)
      exact not_mem_switch hflags (hn _ (Node.mem_explicit.mpr ⟨hself, rfl⟩))
    | concat => exact not_mem_flagsBehindAll hflags hbelow
    | alternation => exact not_mem_flagsBehindAll hflags hbelow
    | _ => exact hflags

end FlagSet

/-- A letter that is not mentioned is not in force. -/
theorem InForce.not_mem {frames : List Frame} {flags : FlagSet} {letter : Char}
    (h : InForce frames flags)
    (hnodes : ∀ f ∈ frames, ∀ n ∈ f.explicit, n.label.mentionsFlag letter = false)
    (hopeners : ∀ f ∈ frames, ∀ label, f.opener.label? = some label →
      label.mentionsFlag letter = false) : letter ∉ flags := by
  induction h with
  | nil => exact Finset.notMem_empty letter
  | @cons f outer around flags houter hobeys hflags hmodes ih =>
    have haround := ih (fun g hg => hnodes g (List.mem_cons_of_mem f hg))
      fun g hg => hopeners g (List.mem_cons_of_mem f hg)
    have hinside : letter ∉ f.opener.flagsInside around := by
      unfold Opener.flagsInside
      split
      next label hlabel =>
        exact FlagSet.not_mem_flagsInside haround (hopeners f List.mem_cons_self label hlabel)
      next => exact haround
    rw [hflags]
    refine FlagSet.not_mem_flagsBehindAll hinside fun n hn around haround => ?_
    refine FlagSet.not_mem_flagsBehind (fun m hm => ?_) haround
    exact hnodes f List.mem_cons_self m (List.mem_flatMap.mpr ⟨n, hn, hm⟩)

namespace ParserState

variable {text : Text} {s t last : ParserState} {root : Node}

/-- On the way to a tree in which no flags mention `x`, verbose mode is never
    on. -/
theorem verbose_eq_false (hruns : (initial text).RunsTo s) (hlast : s.RunsTo last)
    (hfinish : last.finish = .ok root)
    (hroot : ∀ n ∈ root.preorder, n.label.mentionsFlag 'x' = false) :
    s.frame.modes.verbose = false := by
  obtain ⟨flags, hforce⟩ := isScoped_of_runsTo hruns
  obtain ⟨hnodes, hopeners⟩ :=
    label_of_finish (P := fun label => label.mentionsFlag 'x' = false) hlast
      (IsNormal.of_runsTo (hruns.trans hlast)) hfinish hroot
  have hframes : ∀ f ∈ s.frame :: s.outer, f.explicit ⊆ s.explicit ∧ f.opener ∈ s.openers := by
    intro f hf
    rcases List.mem_cons.mp hf with rfl | hf
    · exact ⟨List.subset_append_left _ _, List.mem_cons_self⟩
    · exact ⟨fun n hn => List.mem_append_right _ (List.mem_flatMap.mpr ⟨f, hf, hn⟩),
        List.mem_cons_of_mem _ (List.mem_map_of_mem hf)⟩
  have hnone : 'x' ∉ flags := hforce.not_mem (fun f hf n hn => hnodes n ((hframes f hf).1 hn))
    fun f hf => hopeners _ (hframes f hf).2
  rw [hforce.modes_eq]
  exact decide_eq_false hnone

/-! ## Section 7: Runs -/

/-- A reader of the text comes to quoted text. -/
def ComesToQuote (text : Text) : Prop :=
  ∃ s, (initial text).RunsTo s ∧ ['\\', 'Q'] <+: s.cur.rest

/-- It does not if `\Q` is nowhere in the text. -/
theorem not_comesToQuote (h : ¬ HasPair '\\' 'Q' text) : ¬ ComesToQuote text := by
  intro hquote
  obtain ⟨s, hruns, after, hafter⟩ := hquote
  have hplace := (RemembersTargets.of_runsTo hruns).place
  refine h ⟨text.take s.cur.pos, after, ?_⟩
  have hsplit := List.take_append_drop s.cur.pos text
  rw [← hplace, ← hafter] at hsplit
  exact hsplit.symm

/-- The state in which the text in a plain group is begun. -/
def inGroup (text : Text) : ParserState :=
  (initial ("(?:".toList ++ text ++ ")".toList)).enter (.group (.nonCapturing none)) 0 .none
    ⟨3, text ++ [')']⟩

theorem next_inGroup (text : Text) :
    Next (initial ("(?:".toList ++ text ++ ")".toList)) (inGroup text) :=
  ⟨'(', _, rfl, rfl⟩

theorem enclosedBy_inGroup (text : Text) : (initial text).EnclosedBy (inGroup text) :=
  ⟨rfl, rfl, rfl, rfl, rfl, rfl, rfl⟩

/-- A run over a text is one over the text in a plain group. -/
theorem exists_enclosedBy (hquote : ¬ ComesToQuote text)
    (hfinish : last.finish = .ok root) (hlast : (initial text).RunsTo last)
    (hend : last.cur.rest = [])
    (hroot : ∀ n ∈ root.preorder, n.label.mentionsFlag 'x' = false)
    (hruns : (initial text).RunsTo s) : ∃ t, (inGroup text).RunsTo t ∧ s.EnclosedBy t := by
  induction hruns with
  | refl => exact ⟨_, .refl, enclosedBy_inGroup text⟩
  | @tail u s hruns hnext ih =>
    obtain ⟨t, ht, henclosed⟩ := ih
    -- what has been read so far stands in the tree of the whole text
    have hverbose := verbose_eq_false hruns (RunsTo.to_end hruns hlast hend) hfinish hroot
    have hplain : ¬ ['\\', 'Q'] <+: u.cur.rest := fun hquoted => hquote ⟨u, hruns, hquoted⟩
    obtain ⟨t', hnext', henclosed'⟩ :=
      henclosed.next (IsNormal.of_runsTo hruns) hverbose hplain hnext
    exact ⟨t', ht.tail hnext', henclosed'⟩

/-- The references of the text are known in the group. -/
theorem EnclosedBy.checkReferences (h : s.EnclosedBy t) (hcheck : s.checkReferences = .ok ()) :
    t.checkReferences = .ok () := by
  refine checkReferences_eq_ok_iff.mpr fun r hr => ?_
  have htarget : r.target ∈ s.targets := h.targets ▸ List.mem_map_of_mem hr
  obtain ⟨r', hr', hsame⟩ := List.mem_map.mp htarget
  have hknown := checkReferences_eq_ok_iff.mp hcheck r' hr'
  rw [hsame] at hknown
  unfold IsKnown at hknown ⊢
  rw [h.groups, h.names]
  exact hknown

/-- Where nothing else stands in the outermost frame, it closes into what is
    put there. -/
theorem close_push_of_opened {frame : Frame} (hframe : frame.unspanned = .opened .root 0 .none)
    (node : Node) (count stop : Nat) : (frame.push node).close count stop = .ok (node, count) := by
  have hopener : frame.opener = .root := congrArg Frame.opener hframe
  have hitems : frame.items = [] := List.map_eq_nil_iff.mp (congrArg Frame.items hframe)
  have hfinished : frame.finished = [] :=
    List.map_eq_nil_iff.mp (congrArg Frame.finished hframe)
  simp only [Frame.close, Frame.branches, Frame.push, hopener, hitems, hfinished]
  rfl

/-- Where a pattern ends well, the group around it is closed and ends well,
    too. -/
theorem EnclosedBy.exists_finish (h : s.EnclosedBy t) (hnormal : s.IsNormal)
    (hend : s.cur.rest = []) (hfinish : s.finish = .ok root) :
    ∃ t' node count, Next t t' ∧ t'.cur.rest = [] ∧ t'.finish = .ok node ∧
      node.unspanned = .build count (.group (.nonCapturing none)) 0 0 [root.unspanned] ∧
      t'.groups = s.groups ∧ t'.names = s.names := by
  obtain ⟨houter, ⟨count, hclose⟩, hcheck⟩ := finish_eq_ok_iff.mp hfinish
  have hrest : t.cur.rest = [')'] := by
    have hcur := h.cur
    rwa [Cursor.EnclosedBy, hend] at hcur
  have hbelow := h.outer
  rw [houter] at hbelow
  obtain ⟨frame, outer, houter', hframe, hnone⟩ := List.map_eq_cons_iff.mp hbelow
  obtain rfl := List.map_eq_nil_iff.mp hnone
  -- the parenthesis closes what would have been the root
  obtain ⟨node, hclose', hnode⟩ :=
    h.frame.close_root (hnormal.root_of_outer houter) hclose (t.cur.advance 1).pos
  rw [← h.count] at hclose'
  have hnext := next_closing hrest houter' hclose'
  have hend' : (t.cur.advance 1).rest = [] := by
    rw [Cursor.advance_rest, hrest]
    rfl
  have hroot := close_push_of_opened hframe node (count + 1) (t.cur.advance 1).pos
  refine ⟨_, node, count, hnext, hend', ?_, hnode, h.groups, h.names⟩
  exact finish_eq_ok_iff.mpr ⟨rfl, ⟨count + 1, hroot⟩, h.checkReferences hcheck⟩

end ParserState

/-- A pattern in a plain group is read into that group over the tree of the
    pattern, up to spans. -/
theorem Pattern.exists_parse_inGroup {text : Text} {p : Pattern}
    (hparse : Pattern.parse text = .ok p) (hquote : ¬ ParserState.ComesToQuote text)
    (hflags : ∀ n ∈ p.root.preorder, n.label.mentionsFlag 'x' = false) :
    ∃ q count, Pattern.parse ("(?:".toList ++ text ++ ")".toList) = .ok q ∧
      q.root.unspanned = .build count (.group (.nonCapturing none)) 0 0 [p.root.unspanned] ∧
      q.groupCount = p.groupCount ∧ q.groupNames = p.groupNames := by
  obtain ⟨last, root, hlast, hend, hfinish, rfl⟩ := Pattern.parse_eq_ok_iff.mp hparse
  obtain ⟨t, hruns, henclosed⟩ :=
    ParserState.exists_enclosedBy hquote hfinish hlast hend hflags hlast
  obtain ⟨t', node, count, hnext, hend', hfinish', hnode, hgroups, hnames⟩ :=
    henclosed.exists_finish (.of_runsTo hlast) hend hfinish
  have hall := (Relation.ReflTransGen.head (ParserState.next_inGroup text) hruns).tail hnext
  exact ⟨_, count, Pattern.parse_eq_ok_iff.mpr ⟨t', node, hall, hend', hfinish', rfl⟩, hnode,
    hgroups, hnames⟩

end RegexInsight
