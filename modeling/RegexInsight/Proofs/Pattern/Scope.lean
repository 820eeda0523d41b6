import Mathlib
import RegexInsight.Proofs.Pattern.ClassText
import RegexInsight.Proofs.Pattern.CutLeaf
import RegexInsight.Proofs.Pattern.LiteralOrder
import RegexInsight.Proofs.Pattern.Stack
import RegexInsight.Proofs.Pattern.Way

/-! # The scope of flags

    Inline flags hold from where they stand up to the end of the group that
    they stand in, across its bars, and a group with flags of its own holds
    them up to its end.  `Visit.flags` reads the flags in force at a node
    off the way that leads to it; nothing inside a closed group counts.

    A tree obeys the flags if every leaf accepts what the flags at its place
    make of it.  The parser keeps one set of modes for each open group.
    `InForce` says that these are the flags behind what has been read, and
    that all of it obeys them; every step keeps it, and so the tree of a
    pattern obeys the flags from its root on. -/

namespace RegexInsight

/-! ## Section 1: Flags -/

/-- The letters of the flags in force. -/
abbrev FlagSet := Finset Char

namespace FlagSet

/-- The flags behind a text such as `i-s`: the letters before its first dash
    are added, then those behind it are removed. -/
def switch (flags : FlagSet) (text : Text) : FlagSet :=
  (flags ∪ (text.takeWhile (· != '-')).toFinset) \ ((text.dropWhile (· != '-')).drop 1).toFinset

/-- What the flags say about reading. -/
def modes (flags : FlagSet) : Modes :=
  ⟨'i' ∈ flags, 's' ∈ flags, 'x' ∈ flags⟩

theorem ignoreCase_modes {flags : FlagSet} : flags.modes.ignoreCase = true ↔ 'i' ∈ flags :=
  decide_eq_true_iff

theorem dotAll_modes {flags : FlagSet} : flags.modes.dotAll = true ↔ 's' ∈ flags :=
  decide_eq_true_iff

theorem drop_length_takeWhile {p : Char → Bool} (text : Text) (n : Nat) :
    text.drop ((text.takeWhile p).length + n) = (text.dropWhile p).drop n := by
  have hsplit := congrArg (List.drop (text.takeWhile p).length)
    (List.takeWhile_append_dropWhile (p := p) (l := text))
  rw [List.drop_left] at hsplit
  rw [← List.drop_drop, ← hsplit]

theorem modes_switch (flags : FlagSet) (text : Text) :
    (flags.switch text).modes = flags.modes.apply text := by
  simp [modes, switch, Modes.apply, Modes.switched, drop_length_takeWhile, List.contains_eq_mem]

end FlagSet

/-! ## Section 2: Flags in a tree -/

/-- The flags inside a node, from those around it. -/
def Label.flagsInside (flags : FlagSet) : Label → FlagSet
  | group (.nonCapturing (some text)) => flags.switch text
  | _ => flags

namespace Node

mutual

/-- The flags behind a node, from those before it: flags count if they stand
    in the same body, whichever branch they stand in. -/
def flagsBehind (flags : FlagSet) : Node → FlagSet
  | node (.flags text) _ _ => flags.switch text
  | node .concat _ children => flagsBehindAll flags children
  | node .alternation _ children => flagsBehindAll flags children
  | _ => flags

/-- The flags behind some nodes in a row. -/
def flagsBehindAll (flags : FlagSet) : List Node → FlagSet
  | [] => flags
  | n :: rest => flagsBehindAll (flagsBehind flags n) rest

end

theorem flagsBehindAll_eq_foldl (flags : FlagSet) (nodes : List Node) :
    flagsBehindAll flags nodes = nodes.foldl flagsBehind flags := by
  induction nodes generalizing flags with
  | nil => rfl
  | cons n rest ih => exact ih _

theorem flagsBehindAll_append (flags : FlagSet) (nodes more : List Node) :
    flagsBehindAll flags (nodes ++ more) = flagsBehindAll (flagsBehindAll flags nodes) more := by
  simp only [flagsBehindAll_eq_foldl, List.foldl_append]

/-- What can be repeated leaves the flags as they are. -/
theorem flagsBehind_of_isItem {flags : FlagSet} {n : Node} (hitem : n.label.isItem = true)
    (hrepeatable : n.label.isRepeatable = true) : n.flagsBehind flags = flags := by
  obtain ⟨label, mark, children⟩ := n
  change label.isItem = true at hitem
  change label.isRepeatable = true at hrepeatable
  cases label <;> first | rfl | exact absurd hitem Bool.false_ne_true |
    exact absurd hrepeatable Bool.false_ne_true

end Node

/-- The flags at the child that a step leads to, from those around its
    parent. -/
def Step.flags (step : Step) (around : FlagSet) : FlagSet :=
  Node.flagsBehindAll (step.parent.label.flagsInside around) step.before.reverse

/-- The flags in force at a node: none at the root, and from there what each
    step on the way passes. -/
def Visit.flags (v : Visit) : FlagSet :=
  v.path.foldr Step.flags ∅

/-! ## Section 3: Trees that obey the flags -/

namespace Label

/-- A leaf accepts what the modes make of it. -/
def Obeys (modes : Modes) : Label → Prop
  | literal c accepts => accepts = modes.accepts (.single c)
  | any accepts => accepts = if modes.dotAll then .everything else .anyButNewline
  | charClass source traits accepts => source.head? = some '[' →
    ∃ members, Bracket.Denotes source traits members ∧
      accepts = Bracket.closed modes traits.negated members
  | _ => True

/-- The modes behind a leaf. -/
def modesBehind (modes : Modes) : Label → Modes
  | flags text => modes.apply text
  | _ => modes

end Label

namespace Node

mutual

/-- Every leaf obeys the flags at its place. -/
def Obeys (flags : FlagSet) : Node → Prop
  | node label _ children => label.Obeys flags.modes ∧ ObeysAll (label.flagsInside flags) children

/-- Some nodes in a row obey the flags. -/
def ObeysAll (flags : FlagSet) : List Node → Prop
  | [] => True
  | n :: rest => Obeys flags n ∧ ObeysAll (flagsBehind flags n) rest

end

variable {flags : FlagSet} {n m : Node} {path : List Step}

theorem obeys_iff : n.Obeys flags ↔
    n.label.Obeys flags.modes ∧ ObeysAll (n.label.flagsInside flags) n.children := by
  cases n
  rw [Obeys]
  rfl

theorem obeysAll_append {nodes more : List Node} :
    ObeysAll flags (nodes ++ more) ↔
      ObeysAll flags nodes ∧ ObeysAll (flagsBehindAll flags nodes) more := by
  induction nodes generalizing flags with
  | nil => simp [ObeysAll, flagsBehindAll]
  | cons n rest ih => simp only [List.cons_append, ObeysAll, flagsBehindAll, ih, and_assoc]

/-- What obeys the flags does so along every way. -/
theorem Obeys.of_leadsTo (hn : n.Obeys flags) (h : n.LeadsTo path m) :
    m.Obeys (path.foldr Step.flags flags) := by
  induction h with
  | here => exact hn
  | down hway hchildren ih =>
    obtain ⟨-, hall⟩ := obeys_iff.mp ih
    rw [hchildren] at hall
    exact (obeysAll_append.mp hall).2.1

end Node

/-! ## Section 4: Closing -/

section Closing

open Node

variable {flags : FlagSet} (count stop : Nat)

theorem flagsBehind_closeBranch (items : List Node) :
    flagsBehind flags (closeBranch count stop items).1 = flagsBehindAll flags items := by
  match items with
  | [] => rfl
  | [_] => rfl
  | _ :: _ :: _ => rfl

theorem obeys_closeBranch {items : List Node} (h : ObeysAll flags items) :
    (closeBranch count stop items).1.Obeys flags := by
  match items with
  | [] => exact ⟨trivial, trivial⟩
  | [_] => exact h.1
  | _ :: _ :: _ => exact ⟨trivial, h⟩

theorem obeysAll_closeBranches {branches : List (List Node)}
    (h : ObeysAll flags branches.flatten) :
    ObeysAll flags (closeBranches count stop branches).1 := by
  induction branches generalizing flags count with
  | nil => trivial
  | cons items rest ih =>
    obtain ⟨hitems, hrest⟩ := obeysAll_append.mp h
    simp only [closeBranches, ObeysAll, flagsBehind_closeBranch]
    exact ⟨obeys_closeBranch count stop hitems, ih _ hrest⟩

theorem obeys_closeBody {bodies : List Node} (h : ObeysAll flags bodies) :
    (closeBody count bodies).1.Obeys flags := by
  match bodies with
  | [] => exact ⟨trivial, h⟩
  | [_] => exact h.1
  | _ :: _ :: _ => exact ⟨trivial, h⟩

end Closing

namespace Opener

variable {opener : Opener} {flags : FlagSet}

/-- The flags inside what an opener opens, from those around it. -/
def flagsInside (opener : Opener) (flags : FlagSet) : FlagSet :=
  match opener.label? with
  | some label => label.flagsInside flags
  | none => flags

theorem modes_flagsInside : (opener.flagsInside flags).modes = opener.inside flags.modes := by
  match opener with
  | .group (.nonCapturing (some text)) => exact flags.modes_switch text
  | .group (.nonCapturing none) => rfl
  | .group (.capturing _) => rfl
  | .group (.named ..) => rfl
  | .group .atomic => rfl
  | .root => rfl
  | .lookaround .. => rfl
  | .conditional _ => rfl

end Opener

/-- What has been read into a frame obeys the flags as the node that the
    frame closes into, and this node leaves the flags as they are. -/
theorem Frame.obeys_close {f : Frame} {flags : FlagSet} {count stop count' : Nat} {node : Node}
    (hobeys : Node.ObeysAll (f.opener.flagsInside flags) f.nodes)
    (h : f.close count stop = .ok (node, count')) :
    node.Obeys flags ∧ (f.opener ≠ .root → node.flagsBehind flags = flags) := by
  have hbodies := obeysAll_closeBranches count stop hobeys
  cases f.closed_of_close h with
  | root hopener =>
    rw [hopener] at hbodies
    exact ⟨obeys_closeBody _ hbodies, fun hroot => absurd hopener hroot⟩
  | conditional hopener =>
    rw [hopener] at hbodies
    exact ⟨⟨trivial, hbodies⟩, fun _ => rfl⟩
  | lookaround hopener | group hopener =>
    rw [hopener] at hbodies
    exact ⟨⟨trivial, obeys_closeBody _ hbodies, trivial⟩, fun _ => rfl⟩

/-! ## Section 5: Flags in force -/

/-- The flags behind what has been read into some open frames, the innermost
    one first: all of it obeys them, and every frame has their modes. -/
inductive InForce : List Frame → FlagSet → Prop where
  | nil : InForce [] ∅
  | cons {f : Frame} {outer : List Frame} {around flags : FlagSet} (houter : InForce outer around)
      (hobeys : Node.ObeysAll (f.opener.flagsInside around) f.nodes)
      (hflags : flags = Node.flagsBehindAll (f.opener.flagsInside around) f.nodes)
      (hmodes : f.modes = flags.modes) : InForce (f :: outer) flags

namespace InForce

variable {f g : Frame} {outer : List Frame} {flags : FlagSet} {n : Node}

theorem modes_eq (h : InForce (f :: outer) flags) : f.modes = flags.modes := by
  cases h
  assumption

/-- Something more has been read into the innermost frame. -/
theorem append (h : InForce (f :: outer) flags) (hopener : g.opener = f.opener)
    (hnodes : g.nodes = f.nodes ++ [n]) (hn : n.Obeys flags)
    (hmodes : g.modes = (n.flagsBehind flags).modes) :
    InForce (g :: outer) (n.flagsBehind flags) := by
  cases h with
  | cons houter hobeys hflags _ =>
    refine .cons houter ?_ ?_ hmodes
    · rw [hopener, hnodes, Node.obeysAll_append, ← hflags]
      exact ⟨hobeys, hn, trivial⟩
    · rw [hopener, hnodes, Node.flagsBehindAll_append, ← hflags]
      rfl

/-- A frame has been opened in the innermost one. -/
theorem opened (h : InForce outer flags) (opener : Opener) (start : Nat) :
    InForce (.opened opener start (opener.inside flags.modes) :: outer)
      (opener.flagsInside flags) :=
  .cons h trivial rfl Opener.modes_flagsInside.symm

end InForce

/-! ## Section 6: Leaves -/

/-- A bracket class, as its text shows. -/
def Label.isBracket : Label → Bool
  | charClass source _ _ => source.head? == some '['
  | _ => false

theorem Modes.isBracket_single (modes : Modes) (c : Char) :
    (modes.single c).isBracket = false := by
  unfold single
  split_ifs <;> rfl

namespace Escape

variable {start groups : Nat} {modes : Modes} {cur after : Cursor} {reading : Reading}

theorem Reading.IsReference.isBracket (h : reading.IsReference) :
    ∀ leaf ∈ reading.leaves, leaf.label.isBracket = false := by
  obtain ⟨leaf, hleaves, href⟩ := h
  rw [hleaves]
  intro leaf' hleaf
  obtain rfl := List.mem_singleton.mp hleaf
  cases hlabel : leaf'.label <;> rw [hlabel] at href <;> first | rfl | cases href

theorem isBracket_of_mem_quotedLeaves {pos : Nat} {text : Text} {leaf : Leaf}
    (h : leaf ∈ quotedLeaves modes pos text) : leaf.label.isBracket = false := by
  induction text generalizing pos with
  | nil => cases h
  | cons c rest ih =>
    rcases List.mem_cons.mp h with rfl | hrest
    · rfl
    · exact ih hrest

theorem isBracket_of_mem_leaf {label : Label} {stop : Nat} (h : label.isBracket = false) :
    ∀ leaf ∈ (Reading.leaf label start stop).leaves, leaf.label.isBracket = false := by
  intro leaf hleaf
  obtain rfl := List.mem_singleton.mp hleaf
  exact h

theorem isBracket_of_readNumbered {first : Char}
    (h : readNumbered modes start first cur = .ok (reading, after)) :
    ∀ leaf ∈ reading.leaves, leaf.label.isBracket = false := by
  unfold readNumbered at h
  dsimp only at h
  split at h
  next =>
    obtain ⟨code, -, hpair⟩ := Read.bind_eq_ok.mp h
    obtain ⟨rfl, -⟩ := Prod.mk.inj (Except.ok.inj hpair)
    exact isBracket_of_mem_leaf rfl
  next =>
    obtain ⟨rfl, -⟩ := Prod.mk.inj (Except.ok.inj h)
    exact isBracket_of_mem_leaf rfl

theorem isBracket_of_readQuoted (h : readQuoted modes cur = (reading, after)) :
    ∀ leaf ∈ reading.leaves, leaf.label.isBracket = false := by
  obtain ⟨quoted, -, rfl⟩ := quotes_of_readQuoted h
  exact fun leaf => isBracket_of_mem_quotedLeaves

/-- No escape is a bracket class. -/
theorem isBracket_of_read {rest : Text} (hrest : cur.rest = '\\' :: rest)
    (h : Escape.read modes groups cur = .ok (reading, after)) :
    ∀ leaf ∈ reading.leaves, leaf.label.isBracket = false := by
  obtain ⟨c, rest, rfl⟩ := exists_cons_of_read hrest h
  obtain ⟨f, hform, hread⟩ := exists_form c
  rw [hread modes groups cur rest hrest] at h
  cases hform with
  | shorthand _ | anchor _ | literal _ =>
    obtain ⟨rfl, -⟩ := Prod.mk.inj (Except.ok.inj h)
    exact isBracket_of_mem_leaf rfl
  | property _ =>
    -- the text of a property begins with its backslash
    obtain ⟨⟨chars, stop⟩, -, hpair⟩ := Read.bind_eq_ok.mp h
    obtain ⟨rfl, -⟩ := Prod.mk.inj (Except.ok.inj hpair)
    refine isBracket_of_mem_leaf ?_
    rw [hrest]
    cases stop.pos - cur.pos <;> rfl
  | hexadecimal _ | octal =>
    obtain ⟨⟨code, stop⟩, -, hpair⟩ := Read.bind_eq_ok.mp h
    obtain ⟨rfl, -⟩ := Prod.mk.inj (Except.ok.inj hpair)
    exact isBracket_of_mem_leaf rfl
  | numbered _ => exact isBracket_of_readNumbered h
  | named => exact (isReference_of_readNamed h).isBracket
  | general => exact (isReference_of_readGeneral h).isBracket
  | quoted => exact isBracket_of_readQuoted (Except.ok.inj h)
  | unknown => simp at h

end Escape

/-- Leaves other than bracket classes obey the modes that they are read
    with. -/
theorem Label.IsPlain.obeys {modes : Modes} {label : Label} (h : label.IsPlain modes)
    (hbracket : label.isBracket = false) :
    label.Obeys modes ∧ label.modesBehind modes = modes := by
  cases h with
  | literal => exact ⟨rfl, rfl⟩
  | charClass => exact ⟨fun hhead => absurd hbracket (by simp [isBracket, hhead]), rfl⟩
  | dot => exact ⟨rfl, rfl⟩
  | anchor => exact ⟨trivial, rfl⟩

namespace ParserState

variable {s s' t : ParserState} {cur : Cursor} {leaf : Escape.Leaf} {opener : Opener}
  {modes : Modes} {c : Char} {rest : Text}

/-- There are flags in force that everything read so far obeys. -/
def IsScoped (s : ParserState) : Prop :=
  ∃ flags, InForce (s.frame :: s.outer) flags

theorem isScoped_initial (text : Text) : (initial text).IsScoped :=
  ⟨_, InForce.nil.opened .root 0⟩

theorem IsScoped.nextBranch (h : s.IsScoped) :
    ({ s with frame := s.frame.nextBranch }.moveTo cur).IsScoped := by
  obtain ⟨flags, hforce⟩ := h
  cases hforce with
  | cons houter hobeys hflags hmodes =>
    have hnodes := s.frame.nodes_nextBranch
    exact ⟨flags, .cons houter (hnodes ▸ hobeys) (hnodes ▸ hflags) hmodes⟩

/-- A leaf that obeys the modes has been read; flags change them. -/
theorem IsScoped.addLeaf (h : s.IsScoped)
    (hframe : t.frame = { s.frame with modes := leaf.label.modesBehind s.frame.modes })
    (houter : t.outer = s.outer) (hlabel : leaf.label.Obeys s.frame.modes) :
    ((t.addLeaf leaf).moveTo cur).IsScoped := by
  obtain ⟨flags, hforce⟩ := h
  have hmodes := hforce.modes_eq
  rw [hmodes] at hlabel
  have hnew : (Node.build t.count leaf.label leaf.start leaf.stop []).Obeys flags :=
    ⟨hlabel, trivial⟩
  have hbehind : ((Node.build t.count leaf.label leaf.start leaf.stop []).flagsBehind flags).modes =
      leaf.label.modesBehind flags.modes := by
    cases hleaf : leaf.label <;> first | rfl | exact flags.modes_switch _
  refine ⟨(Node.build t.count leaf.label leaf.start leaf.stop []).flagsBehind flags, ?_⟩
  show InForce (t.frame.push _ :: t.outer) _
  rw [hframe, houter]
  exact hforce.append rfl (Frame.nodes_push _ _) hnew (by rw [hbehind, ← hmodes]; rfl)

theorem IsScoped.enter {start : Nat} (h : s.IsScoped) (hframe : t.frame = s.frame)
    (houter : t.outer = s.outer) (hmodes : modes = opener.inside s.frame.modes) :
    (t.enter opener start modes cur).IsScoped := by
  obtain ⟨flags, hforce⟩ := h
  refine ⟨opener.flagsInside flags, ?_⟩
  show InForce (.opened opener start modes :: t.frame :: t.outer) _
  rw [hmodes, hforce.modes_eq, hframe, houter]
  exact hforce.opened opener start

/-! ## Section 7: One step -/

/-- Flags in a group of their own hold up to the end of the enclosing group,
    before a colon up to the end of the group they open. -/
theorem IsScoped.readOpening (h : s.IsScoped) (hrest : s.cur.rest = '(' :: rest)
    (hread : s.readOpening = .ok s') : s'.IsScoped := by
  obtain ⟨head, n, -, hact⟩ := exists_headAt hrest hread
  cases head with
  | comment inner =>
    obtain rfl := Except.ok.inj hact
    exact h
  | named name spelling =>
    obtain ⟨-, hstate⟩ := Read.guard_eq_ok.mp hact
    obtain rfl := Except.ok.inj hstate
    apply h.enter <;> rfl
  | numberCall target =>
    obtain ⟨reference, -, hstate⟩ := Read.bind_eq_ok.mp hact
    obtain rfl := Except.ok.inj hstate
    exact h.addLeaf rfl rfl trivial
  | backreference | nameCall | wholeCall | flags =>
    obtain rfl := Except.ok.inj hact
    exact h.addLeaf rfl rfl trivial
  | capturing | plain | atomic | lookaround | conditional | flagGroup =>
    obtain rfl := Except.ok.inj hact
    apply h.enter <;> rfl

/-- Behind a closed group the flags are those in front of it. -/
theorem IsScoped.readClosing (h : s.IsScoped) (hnormal : s.IsNormal)
    (hread : s.readClosing = .ok s') : s'.IsScoped := by
  obtain ⟨frame, outer, node, count, houter, hclose, rfl⟩ := exists_of_readClosing hread
  -- the flags of the frame that closes are lost, those around it stay in force
  obtain ⟨flags, hforce⟩ := h
  rw [houter] at hforce
  cases hforce with
  | cons haround hobeys _ _ =>
    obtain ⟨hnode, hbehind⟩ := Frame.obeys_close hobeys hclose
    have hsame := hbehind (hnormal.nested_of_outer houter).1
    exact ⟨_, haround.append rfl (Frame.nodes_push _ _) hnode
      (by rw [hsame]; exact haround.modes_eq)⟩

/-- A quantifier takes the place of its operand, which is no flags. -/
theorem IsScoped.applyQuantifier (h : s.IsScoped) (hnormal : s.IsNormal) {bounds : Bounds}
    (hread : s.applyQuantifier bounds cur = .ok s') : s'.IsScoped := by
  obtain ⟨-, -, item, items, mode, stop, hitems, hrepeatable, -, rfl⟩ :=
    applyQuantifier_eq_ok_iff.mp hread
  obtain ⟨flags, hforce⟩ := h
  cases hforce with
  | cons houter hobeys hflags hmodes =>
    have hnodes := Frame.nodes_of_items hitems
    have hitem : item.label.isItem = true :=
      (hnormal.frame.items item (by rw [hnodes]; simp)).item
    rw [hnodes, Node.obeysAll_append] at hobeys
    rw [hnodes, Node.flagsBehindAll_append, Node.flagsBehindAll, Node.flagsBehindAll,
      Node.flagsBehind_of_isItem hitem hrepeatable] at hflags
    -- the nodes stay the same up to the last one, and so do the flags in front of it
    have hnew := Frame.nodes_of_items (f := (s.putQuantifier bounds mode item items stop).frame) rfl
    refine ⟨flags, .cons houter ?_ ?_ hmodes⟩
    · rw [hnew, Node.obeysAll_append]
      exact ⟨hobeys.1, ⟨trivial, hobeys.2⟩, trivial⟩
    · rw [hnew, Node.flagsBehindAll_append]
      exact hflags

theorem IsScoped.foldl_addLeaf {leaves : List Escape.Leaf} (h : s.IsScoped)
    (hleaves : ∀ leaf ∈ leaves, leaf.label.Obeys s.frame.modes ∧
      leaf.label.modesBehind s.frame.modes = s.frame.modes) :
    (leaves.foldl ParserState.addLeaf s).IsScoped := by
  induction leaves generalizing s with
  | nil => exact h
  | cons leaf rest ih =>
    obtain ⟨⟨hlabel, hmodes⟩, hrest⟩ := List.forall_mem_cons.mp hleaves
    have hframe : s.frame = { s.frame with modes := leaf.label.modesBehind s.frame.modes } := by
      rw [hmodes]
    have hadd : ((s.addLeaf leaf).moveTo s.cur).IsScoped := h.addLeaf hframe rfl hlabel
    exact ih hadd hrest

theorem IsScoped.readEscape (h : s.IsScoped) (hrest : s.cur.rest = '\\' :: rest)
    (hread : s.readEscape = .ok s') : s'.IsScoped := by
  obtain ⟨⟨reading, after⟩, hescape, hstate⟩ := Read.bind_eq_ok.mp hread
  obtain rfl := Except.ok.inj hstate
  have hbracket := Escape.isBracket_of_read hrest hescape
  obtain ⟨-, hsound⟩ := Escape.read_spec hrest hescape
  have hleaves : ∀ leaf ∈ reading.leaves, leaf.label.Obeys s.frame.modes ∧
      leaf.label.modesBehind s.frame.modes = s.frame.modes := by
    intro leaf hleaf
    -- a reference has no set of its own
    rcases hsound.isPlain_or_isReference hleaf with hplain | href
    · exact hplain.obeys (hbracket leaf hleaf)
    · cases hlabel : leaf.label <;> rw [hlabel] at href <;>
        first | exact ⟨trivial, rfl⟩ | cases href
  cases reading.reference with
  | none => exact h.foldl_addLeaf hleaves
  | some target => exact IsScoped.foldl_addLeaf (s := s.refer target s.cur.pos) h hleaves

theorem IsScoped.readBracket (h : s.IsScoped) (hrest : s.cur.rest = '[' :: rest)
    (hread : s.readBracket = .ok s') : s'.IsScoped := by
  obtain ⟨⟨leaf, after⟩, hleaf, hstate⟩ := Read.bind_eq_ok.mp hread
  obtain rfl := Except.ok.inj hstate
  obtain ⟨source, traits, members, hdenotes, -, -, rfl⟩ := Bracket.exists_denotes hrest hleaf
  exact h.addLeaf rfl rfl fun _ => ⟨members, hdenotes, rfl⟩

theorem IsScoped.readOne (h : s.IsScoped) {label : Label} (hlabel : label.IsPlain s.frame.modes)
    (hbracket : label.isBracket = false) : (s.readOne label).IsScoped := by
  obtain ⟨hobeys, hmodes⟩ := hlabel.obeys hbracket
  refine h.addLeaf ?_ rfl hobeys
  rw [hmodes]

theorem IsScoped.readAt (h : s.IsScoped) (hnormal : s.IsNormal) (hrest : s.cur.rest = c :: rest)
    (hread : s.readAt c = .ok s') : s'.IsScoped := by
  have hreads := readsAt hrest
  generalize s.readAt c = result at hreads hread
  cases hreads with
  | opening => exact h.readOpening hrest hread
  | closing => exact h.readClosing hnormal hread
  | bar =>
    obtain rfl := Except.ok.inj hread
    exact h.nextBranch
  | unread => simp at hread
  | quantifier => exact h.applyQuantifier hnormal hread
  | bracket => exact h.readBracket hrest hread
  | escape => exact h.readEscape hrest hread
  | single =>
    obtain rfl := Except.ok.inj hread
    exact h.readOne (s.frame.modes.isPlain_single c) (s.frame.modes.isBracket_single c)

theorem IsScoped.next (h : s.IsScoped) (hnormal : s.IsNormal) (hnext : s.Next s') :
    s'.IsScoped := by
  obtain ⟨c, rest, hrest, hstep⟩ := hnext
  unfold ParserState.step at hstep
  split at hstep
  next =>
    obtain rfl := Except.ok.inj hstep
    exact h
  next => exact h.readAt hnormal hrest hstep

/-! ## Section 8: Runs -/

theorem isScoped_of_runsTo {text : Text} (h : (initial text).RunsTo s) : s.IsScoped := by
  induction h with
  | refl => exact isScoped_initial text
  | tail hruns hnext ih => exact ih.next (.of_runsTo hruns) hnext

end ParserState

/-- The tree of a pattern obeys the flags. -/
theorem Pattern.obeys_of_parse {text : Text} {p : Pattern} (h : Pattern.parse text = .ok p) :
    p.root.Obeys ∅ := by
  obtain ⟨last, root, hruns, -, hfinish, rfl⟩ := Pattern.parse_eq_ok_iff.mp h
  obtain ⟨hlast, ⟨count, hclose⟩, -⟩ := ParserState.finish_eq_ok_iff.mp hfinish
  -- at the end only the root is open, around which no flags are in force
  obtain ⟨flags, hforce⟩ := ParserState.isScoped_of_runsTo hruns
  rw [hlast] at hforce
  cases hforce with
  | cons houter hobeys _ _ =>
    cases houter
    exact (Frame.obeys_close hobeys hclose).1

/-! ## Section 9: What leaves accept -/

theorem Label.Obeys.literal {flags : FlagSet} {c : CodePoint} {accepts : CharSet}
    (h : (Label.literal c accepts).Obeys flags.modes) {x : CodePoint} :
    accepts.contains x = true ↔ UpToCase ('i' ∈ flags) (· = c) x := by
  rw [show accepts = _ from h, Modes.contains_accepts]
  simp only [CharSet.contains_single, FlagSet.ignoreCase_modes]

theorem Label.Obeys.any {flags : FlagSet} {accepts : CharSet}
    (h : (Label.any accepts).Obeys flags.modes) {x : CodePoint} (hx : x ≤ maxCodePoint) :
    accepts.contains x = true ↔ x ≠ '\n'.toNat ∨ 's' ∈ flags := by
  rw [show accepts = _ from h]
  split
  next hall =>
    simp [CharSet.contains_everything, hx, FlagSet.dotAll_modes.mp hall]
  next hall =>
    rw [FlagSet.dotAll_modes] at hall
    rw [CharSet.anyButNewline, CharSet.newline,
      CharSet.contains_complement (CharSet.isCanonical_single _) hx, Ne, CharSet.contains_single]
    simp [hall]

/-- A bracket class has the members that it has without flags, up to case if
    case is ignored, before it is negated. -/
theorem Label.Obeys.charClass {flags : FlagSet} {source : Text} {traits : ClassTraits}
    {accepts : CharSet} (h : (Label.charClass source traits accepts).Obeys flags.modes)
    (hhead : source.head? = some '[') :
    ∃ q, Pattern.parse source = .ok q ∧ q.root.label = .charClass source traits q.root.chars ∧
      ∀ x ≤ maxCodePoint, accepts.contains x = true ↔
        (UpToCase ('i' ∈ flags) (fun y => q.root.chars.contains y ≠ traits.negated) x ↔
          traits.negated = false) := by
  obtain ⟨members, hdenotes, rfl⟩ := h hhead
  refine ⟨_, Pattern.parse_class hdenotes, rfl, fun x hx => ?_⟩
  rw [Bracket.contains_closed hdenotes.canonical hx, FlagSet.ignoreCase_modes,
    UpToCase.congr hx fun y hy => (Bracket.contains_closed_none hdenotes.canonical hy).symm]
  rfl

/-- Inline flags are lexically scoped: at every place of a pattern, `i`
    decides whether a literal and a bracket class take case partners, and
    `s` whether the dot takes a newline. -/
theorem Pattern.flags_scoped {text : Text} {p : Pattern} (h : Pattern.parse text = .ok p)
    {v : Visit} (hv : v ∈ p.root.visits) :
    (∀ c accepts, v.node.label = .literal c accepts → ∀ x,
      v.node.chars.contains x = true ↔ UpToCase ('i' ∈ v.flags) (· = c) x) ∧
    (∀ accepts, v.node.label = .any accepts → ∀ x ≤ maxCodePoint,
      (v.node.chars.contains x = true ↔ x ≠ '\n'.toNat ∨ 's' ∈ v.flags)) ∧
    (∀ source traits accepts, v.node.label = .charClass source traits accepts →
      source.head? = some '[' →
      ∃ q, Pattern.parse source = .ok q ∧ q.root.label = .charClass source traits q.root.chars ∧
        ∀ x ≤ maxCodePoint, (v.node.chars.contains x = true ↔
          (UpToCase ('i' ∈ v.flags) (fun y => q.root.chars.contains y ≠ traits.negated) x ↔
            traits.negated = false))) := by
  have hway := Node.mem_visits.mp hv
  -- the flags that hold at a place are collected on the way down to it
  have hobeys : v.node.label.Obeys v.flags.modes :=
    (Node.obeys_iff.mp ((Pattern.obeys_of_parse h).of_leadsTo hway)).1
  have hreach : v.node.reach = v.node.label.reach (v.node.children.map Node.reach) :=
    (Pattern.isNormal_of_parse h v.node (Node.mem_preorder.mpr ⟨_, hway⟩)).2
  refine ⟨fun c accepts hlabel x => ?literal, fun accepts hlabel x hx => ?dot,
    fun source traits accepts hlabel hhead => ?charClass⟩
  all_goals
    rw [hlabel] at hobeys
    rw [Node.chars, hreach, hlabel]
  case literal => exact hobeys.literal
  case dot => exact hobeys.any hx
  case charClass => exact hobeys.charClass hhead

/-- Behind the bar the flags still hold, behind the group they do not. -/
theorem Pattern.flags_scoped_behind_bar :
    ∃ p, Pattern.parse "((?i)a|b)c".toList = .ok p ∧
      (∃ v ∈ p.root.visits, v.node.label.literal? = some 'b'.toNat ∧ v.flags = {'i'} ∧
        v.node.chars.contains 'B'.toNat = true) ∧
      ∃ v ∈ p.root.visits, v.node.label.literal? = some 'c'.toNat ∧ v.flags = ∅ ∧
        ¬ v.node.chars.contains 'C'.toNat = true := by
  have hcheck : (Pattern.parse "((?i)a|b)c".toList).toOption.any (fun p =>
      (p.root.visits.any fun v => v.node.label.literal? == some 'b'.toNat && v.flags == {'i'}) &&
      p.root.visits.any fun v => v.node.label.literal? == some 'c'.toNat && v.flags == ∅) =
        true := by decide +kernel
  obtain ⟨p, hp, hcheck⟩ := exists_of_check hcheck
  simp only [Bool.and_eq_true, List.any_eq_true, beq_iff_eq] at hcheck
  obtain ⟨⟨v, hv, hb, hflags⟩, w, hw, hc, hnone⟩ := hcheck
  obtain ⟨accepts, hlabel⟩ := Label.literal?_eq_some_iff.mp hb
  obtain ⟨accepts', hlabel'⟩ := Label.literal?_eq_some_iff.mp hc
  refine ⟨p, hp, ⟨v, hv, hb, hflags, ?_⟩, w, hw, hc, hnone, ?_⟩
  · rw [(Pattern.flags_scoped hp hv).1 _ _ hlabel, hflags]
    exact .inr ⟨Finset.mem_singleton_self _, 'b'.toNat, rfl, rfl⟩
  · rw [(Pattern.flags_scoped hp hw).1 _ _ hlabel', hnone]
    simp [UpToCase]

end RegexInsight
