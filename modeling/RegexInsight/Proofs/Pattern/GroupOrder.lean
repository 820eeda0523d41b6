import Mathlib
import RegexInsight.Proofs.Pattern.ArenaTree
import RegexInsight.Proofs.Pattern.Explicit
import RegexInsight.Proofs.Pattern.NormalForm

/-! # The order of groups

    A group gets its number when it opens, and its node when it closes,
    after the nodes of all groups inside.  What ties the two together is
    the list of groups in the order of their opening: the groups of a frame
    are the one that it will close into, if it is a group, and then those
    of its items.  Read from the outermost frame inwards, this list grows
    at its end when a group opens, and closing does not change it.  At the
    end it is the list of groups in the pre-order of the tree. -/

namespace RegexInsight

/-! ## Section 1: Groups of a tree -/

namespace GroupKind

/-- Capturing groups, with or without a name. -/
def isCapturing : GroupKind → Bool
  | capturing _ => true
  | named _ _ _ => true
  | nonCapturing _ => false
  | atomic => false

/-- The name of a named group with its number. -/
def named? : GroupKind → Option (Text × Nat)
  | named index name _ => some (name, index)
  | _ => none

/-- Groups without a number are those that do not capture. -/
theorem index?_eq_none {kind : GroupKind} (h : kind.isCapturing = false) : kind.index? = none := by
  cases kind <;> first | rfl | exact Bool.noConfusion h

/-- The numbers of some groups are those of the capturing ones among them. -/
theorem map_index?_filter (kinds : List GroupKind) :
    (kinds.filter isCapturing).map index? = (kinds.filterMap index?).map some := by
  induction kinds with
  | nil => rfl
  | cons kind rest ih =>
    rw [List.filter_cons, List.filterMap_cons]
    cases kind <;> simp [isCapturing, index?, ih]

end GroupKind

/-- How a group captures. -/
def Label.groupKind? : Label → Option GroupKind
  | group kind => some kind
  | _ => none

theorem Label.groupKind?_of_isPlain {modes : Modes} {label : Label} (h : label.IsPlain modes) :
    label.groupKind? = none := by
  cases h <;> rfl

/-- The groups of a tree, in pattern order. -/
def Node.groupKinds (n : Node) : List GroupKind :=
  n.preorder.filterMap fun m => m.label.groupKind?

/-- Every group is explicit. -/
theorem Node.groupKinds_eq_explicit (n : Node) :
    n.groupKinds = n.explicit.filterMap fun m => m.label.groupKind? := by
  rw [groupKinds, explicit, List.filterMap_filter]
  refine List.filterMap_congr fun m _ => ?_
  cases m.label <;> rfl

/-- A quantifier adds no group to those of its operand. -/
theorem Node.groupKinds_quantifier (count : Nat) (bounds : Bounds) (mode : QuantifierMode)
    (start stop : Nat) (item : Node) :
    (build count (.quantifier bounds mode) start stop [item]).groupKinds = item.groupKinds := by
  rw [groupKinds, preorder_build, List.filterMap_cons, List.flatMap_singleton]
  rfl

/-- How a frame captures, if it is a group. -/
def Opener.groupKind? : Opener → Option GroupKind
  | group kind => some kind
  | _ => none

/-! ## Section 2: Groups of a frame -/

namespace Frame

/-- The groups of a frame in the order of their opening: the group that it
    will close into, then those of its items. -/
def groupKinds (f : Frame) : List GroupKind :=
  f.opener.groupKind?.toList ++ f.explicit.filterMap fun m => m.label.groupKind?

@[simp] theorem groupKinds_opened (opener : Opener) (start : Nat) (modes : Modes) :
    (opened opener start modes).groupKinds = opener.groupKind?.toList := by
  rw [groupKinds, explicit_opened, List.filterMap_nil, List.append_nil]
  rfl

@[simp] theorem groupKinds_push (f : Frame) (n : Node) :
    (f.push n).groupKinds = f.groupKinds ++ n.groupKinds := by
  rw [groupKinds, explicit_push, List.filterMap_append, ← List.append_assoc,
    n.groupKinds_eq_explicit]
  rfl

@[simp] theorem groupKinds_nextBranch (f : Frame) : f.nextBranch.groupKinds = f.groupKinds := by
  rw [groupKinds, explicit_nextBranch]
  rfl

theorem groupKinds_of_items {f : Frame} {item : Node} {items : List Node}
    (h : f.items = item :: items) :
    f.groupKinds = { f with items := items }.groupKinds ++ item.groupKinds := by
  rw [groupKinds, explicit_of_items h, List.filterMap_append, ← List.append_assoc,
    item.groupKinds_eq_explicit]
  rfl

/-- Closing a frame keeps its groups in the order of their opening. -/
theorem groupKinds_close {f : Frame} {count stop count' : Nat} {node : Node}
    (h : f.close count stop = .ok (node, count')) : node.groupKinds = f.groupKinds := by
  rw [node.groupKinds_eq_explicit, groupKinds]
  rcases explicit_close h with ⟨hopener, hexplicit⟩ | ⟨hopener, hexplicit⟩
  · rw [hexplicit, hopener]
    rfl
  · -- the node captures as its opener says
    have hkind : node.label.groupKind? = f.opener.groupKind? := by
      rcases Opener.cases_of_label? hopener with
        ⟨_, hcase, hlabel⟩ | ⟨_, _, hcase, hlabel⟩ | ⟨_, hcase, hlabel⟩ <;> rw [hcase, hlabel] <;> rfl
    rw [hexplicit, List.filterMap_cons, hkind]
    cases f.opener.groupKind? <;> rfl

end Frame

/-! ## Section 3: Groups opened so far -/

namespace ParserState

/-- The groups opened so far, in the order of their opening. -/
def groupKinds (s : ParserState) : List GroupKind :=
  s.outer.reverse.flatMap Frame.groupKinds ++ s.frame.groupKinds

variable {s s' : ParserState}

theorem groupKinds_addLeaf {leaf : Escape.Leaf} (h : leaf.label.groupKind? = none) :
    (s.addLeaf leaf).groupKinds = s.groupKinds := by
  have hleaf : ∀ count, (Node.build count leaf.label leaf.start leaf.stop []).groupKinds = [] := by
    intro count
    rw [Node.groupKinds, Node.preorder_build, List.filterMap_cons, Node.label_build, h]
    rfl
  simp only [groupKinds, addLeaf, Frame.groupKinds_push, hleaf, List.append_nil]

theorem groupKinds_enter (opener : Opener) (start : Nat) (modes : Modes) (cur : Cursor) :
    (s.enter opener start modes cur).groupKinds =
      s.groupKinds ++ opener.groupKind?.toList := by
  simp [groupKinds, enter]

/-- The groups opened so far carry the numbers from 1 on, and the named ones
    among them are those in the table of names, where no name stands
    twice. -/
structure NumbersGroups (s : ParserState) : Prop where
  numbers : s.groupKinds.filterMap GroupKind.index? = List.range' 1 s.groups
  names : s.groupKinds.filterMap GroupKind.named? = s.names
  distinct : (s.names.map Prod.fst).Nodup

namespace NumbersGroups

theorem initial (text : Text) : (ParserState.initial text).NumbersGroups :=
  ⟨rfl, rfl, List.nodup_nil⟩

theorem moveTo (h : s.NumbersGroups) {cur : Cursor} : (s.moveTo cur).NumbersGroups :=
  ⟨h.numbers, h.names, h.distinct⟩

theorem refer (h : s.NumbersGroups) {target : Text} {position : Nat} :
    (s.refer target position).NumbersGroups :=
  ⟨h.numbers, h.names, h.distinct⟩

theorem withFrame (h : s.NumbersGroups) {f : Frame} (hkinds : f.groupKinds = s.frame.groupKinds) :
    { s with frame := f }.NumbersGroups := by
  have hsame : { s with frame := f }.groupKinds = s.groupKinds := by simp [groupKinds, hkinds]
  exact ⟨hsame ▸ h.numbers, hsame ▸ h.names, h.distinct⟩

theorem addLeaf (h : s.NumbersGroups) {leaf : Escape.Leaf} (hleaf : leaf.label.groupKind? = none) :
    (s.addLeaf leaf).NumbersGroups := by
  have hsame := groupKinds_addLeaf (s := s) hleaf
  exact ⟨hsame ▸ h.numbers, hsame ▸ h.names, h.distinct⟩

theorem foldl_addLeaf (h : s.NumbersGroups) {modes : Modes} {leaves : List Escape.Leaf}
    (hleaves : ∀ leaf ∈ leaves, leaf.label.IsPlain modes) :
    (leaves.foldl ParserState.addLeaf s).NumbersGroups := by
  induction leaves generalizing s with
  | nil => exact h
  | cons leaf rest ih =>
    have hplain : leaf.label.groupKind? = none :=
      Label.groupKind?_of_isPlain (hleaves leaf List.mem_cons_self)
    exact ih (h.addLeaf hplain) fun other hother => hleaves other (List.mem_cons_of_mem _ hother)

/-- A frame is opened, and the numbers and names that its group takes are
    those that come next. -/
theorem enter (h : s.NumbersGroups) {groups : Nat} {names : List (Text × Nat)} {opener : Opener}
    {start : Nat} {modes : Modes} {cur : Cursor}
    (hgroups : List.range' 1 groups =
      List.range' 1 s.groups ++ opener.groupKind?.toList.filterMap GroupKind.index?)
    (hnames : names = s.names ++ opener.groupKind?.toList.filterMap GroupKind.named?)
    (hdistinct : (names.map Prod.fst).Nodup) :
    ({ s with groups := groups, names := names }.enter opener start modes cur).NumbersGroups := by
  have hkinds := groupKinds_enter (s := { s with groups := groups, names := names })
    opener start modes cur
  refine ⟨?_, ?_, hdistinct⟩
  · rw [hkinds, List.filterMap_append]
    exact (congrArg (· ++ _) h.numbers).trans hgroups.symm
  · rw [hkinds, List.filterMap_append]
    exact (congrArg (· ++ _) h.names).trans hnames.symm

/-- A frame that captures nothing takes neither a number nor a name. -/
theorem enter_plain (h : s.NumbersGroups) {opener : Opener} {start : Nat} {modes : Modes}
    {cur : Cursor} (hindex : opener.groupKind?.toList.filterMap GroupKind.index? = [])
    (hnamed : opener.groupKind?.toList.filterMap GroupKind.named? = []) :
    (s.enter opener start modes cur).NumbersGroups :=
  h.enter (by rw [hindex, List.append_nil]) (by rw [hnamed, List.append_nil]) h.distinct

/-- The next number is one more than the number of groups. -/
theorem range'_next (groups : Nat) :
    List.range' 1 (groups + 1) = List.range' 1 groups ++ [groups + 1] := by
  rw [List.range'_1_concat, Nat.add_comm 1]

/-- Every move keeps the numbers in order. -/
theorem move (h : s.NumbersGroups) (hmove : Move s s') : s'.NumbersGroups := by
  -- a group takes its number where it opens; nothing else changes what was numbered
  cases hmove with
  | skip => exact h.moveTo
  | plain _ hleaves => exact (h.foldl_addLeaf hleaves).moveTo
  | flags => exact ((h.withFrame (by rfl)).addLeaf rfl).moveTo
  | backreference => exact (h.refer.addLeaf rfl).moveTo
  | recursion => exact (h.refer.addLeaf rfl).moveTo
  | whole => exact (h.addLeaf rfl).moveTo
  | enter _ hopener => cases hopener <;> exact h.enter_plain rfl rfl
  | enterCapturing =>
    exact h.enter (range'_next s.groups) (List.append_nil _).symm h.distinct
  | @enterNamed name spelling start cur hcur hname hfresh =>
    refine h.enter (range'_next s.groups) rfl ?_
    have hnot : name ∉ s.names.map Prod.fst := by
      intro hmem
      obtain ⟨entry, hentry, rfl⟩ := List.mem_map.mp hmem
      exact hfresh entry hentry rfl
    simpa using h.distinct.concat hnot
  | enterConditional => exact h.refer.enter_plain rfl rfl
  | nextBranch => exact (h.withFrame (Frame.groupKinds_nextBranch _)).moveTo
  | @close frame outer node count cur hcur houter hclose =>
    have hkinds : { s with
        cur := cur
        frame := frame.push node
        outer := outer
        count := count }.groupKinds = s.groupKinds := by
      simp [groupKinds, houter, Frame.groupKinds_close hclose]
    exact ⟨hkinds ▸ h.numbers, hkinds ▸ h.names, h.distinct⟩
  | @quantify bounds mode item items cur hcur hbounds hfirst hitems hitem =>
    have hkinds : (s.putQuantifier bounds mode item items cur).groupKinds = s.groupKinds := by
      simp only [groupKinds, putQuantifier, Frame.groupKinds_of_items hitems,
        Frame.groupKinds_of_items (f := { s.frame with
          items := .build s.count (.quantifier bounds mode) item.start cur.pos [item] :: items
          quantified := true }) rfl, Node.groupKinds_quantifier]
      rfl
    exact ⟨hkinds ▸ h.numbers, hkinds ▸ h.names, h.distinct⟩

theorem of_runsTo {text : Text} (h : (ParserState.initial text).RunsTo s) : s.NumbersGroups :=
  h.invariant move (initial text)

end NumbersGroups

end ParserState

/-- The groups in the tree of a parsed pattern carry the numbers from 1 on,
    and its table of names holds the named ones among them. -/
theorem Pattern.groupKinds_of_parse {text : Text} {p : Pattern} (h : Pattern.parse text = .ok p) :
    p.root.groupKinds.filterMap GroupKind.index? = List.range' 1 p.groupCount ∧
      p.root.groupKinds.filterMap GroupKind.named? = p.groupNames ∧
      (p.groupNames.map Prod.fst).Nodup := by
  obtain ⟨last, root, hruns, -, hfinish, rfl⟩ := Pattern.parse_eq_ok_iff.mp h
  obtain ⟨houter, ⟨count, hclose⟩, -⟩ := ParserState.finish_eq_ok_iff.mp hfinish
  have hlast := ParserState.NumbersGroups.of_runsTo hruns
  have hkinds : root.groupKinds = last.groupKinds := by
    rw [Frame.groupKinds_close hclose, ParserState.groupKinds, houter]
    rfl
  exact ⟨hkinds ▸ hlast.numbers, hkinds ▸ hlast.names, hlast.distinct⟩

/-! ## Section 4: Groups in a walk -/

namespace Arena

/-- How the node with a number captures, if it is a group. -/
def groupKind? (a : Arena) (i : Nat) : Option GroupKind :=
  a.entries[i]?.bind fun entry => entry.label.groupKind?

/-- The name of the node with a number, if it is a named group. -/
def groupName? (a : Arena) (i : Nat) : Option Text :=
  ((a.groupKind? i).bind GroupKind.named?).map Prod.fst

end Arena

namespace Numbered

variable {root : Node} {count : Nat} (h : Numbered [root] count)

include h

/-- The walk over the whole table starts at the root of the tree. -/
theorem walk_root : (Arena.ofNode root).walk (Arena.ofNode root).root = root.indices := by
  rw [h.root_ofNode, h.walk_index root.mem_preorder_self]

theorem groupKind?_index {n : Node} (hn : n ∈ root.preorder) :
    (Arena.ofNode root).groupKind? n.index = n.label.groupKind? := by
  rw [Arena.groupKind?, h.entries_getElem? hn]
  rfl

/-- The walk comes to the groups in the order in which they stand in the
    tree. -/
theorem filterMap_walk :
    ((Arena.ofNode root).walk (Arena.ofNode root).root).filterMap (Arena.ofNode root).groupKind? =
      root.groupKinds := by
  rw [h.walk_root, Node.indices, List.filterMap_map]
  exact List.filterMap_congr fun n hn => h.groupKind?_index hn

end Numbered

/-- In a table without repeated keys, looking up finds what stands there. -/
theorem lookup_eq_some_iff_mem {names : List (Text × Nat)} (h : (names.map Prod.fst).Nodup)
    {name : Text} {index : Nat} : names.lookup name = some index ↔ (name, index) ∈ names := by
  rw [List.lookup_eq_some_iff]
  constructor
  · rintro ⟨before, after, rfl, -⟩
    exact List.mem_append_right _ List.mem_cons_self
  · intro hmem
    obtain ⟨before, after, rfl⟩ := List.append_of_mem hmem
    refine ⟨before, after, rfl, fun entry hentry => bne_iff_ne.mpr fun heq => ?_⟩
    rw [List.map_append, List.map_cons] at h
    have hbefore : name ∈ before.map Prod.fst := List.mem_map.mpr ⟨entry, hentry, heq.symm⟩
    exact (List.nodup_append.mp h).2.2 name hbefore name List.mem_cons_self rfl

namespace Pattern

variable {text : Text} {p : Pattern}

/-- The numbers of all nodes, in the order of a walk over the whole
    table. -/
def walk (p : Pattern) : List Nat :=
  p.arena.walk p.arena.root

/-- The groups to which the walk comes. -/
theorem filterMap_walk_of_parse (h : parse text = .ok p) :
    p.walk.filterMap p.arena.groupKind? = p.root.groupKinds := by
  obtain ⟨count, hnumbered⟩ := numbered_of_parse h
  exact hnumbered.filterMap_walk

/-- No two nodes carry one name. -/
theorem groupName?_unique (h : parse text = .ok p) {i j : Nat} {name : Text} (hi : i ∈ p.walk)
    (hj : j ∈ p.walk) (hnamei : p.arena.groupName? i = some name)
    (hnamej : p.arena.groupName? j = some name) : i = j := by
  obtain ⟨-, hnames, hdistinct⟩ := groupKinds_of_parse h
  have hwalk : p.groupNames.map Prod.fst = p.walk.filterMap p.arena.groupName? := by
    rw [← hnames, ← filterMap_walk_of_parse h, List.filterMap_filterMap, List.map_filterMap]
    rfl
  rw [hwalk, List.Nodup, List.pairwise_filterMap] at hdistinct
  have hsymm : Std.Symm fun i j => ∀ name, p.arena.groupName? i = some name →
      ∀ name', p.arena.groupName? j = some name' → name ≠ name' :=
    ⟨fun _ _ hij name hname name' hname' => (hij name' hname' name hname).symm⟩
  by_contra hne
  exact hdistinct.forall hi hj hne name hnamei name hnamej rfl

/-- The table of names leads to the named groups of the walk. -/
theorem lookup_groupNames_iff (h : parse text = .ok p) {name : Text} {index : Nat} :
    p.groupNames.lookup name = some index ↔
      ∃ i ∈ p.walk, ∃ spelling, p.arena.groupKind? i = some (.named index name spelling) := by
  obtain ⟨-, hnames, hdistinct⟩ := groupKinds_of_parse h
  rw [lookup_eq_some_iff_mem hdistinct, ← hnames, ← filterMap_walk_of_parse h]
  simp only [List.mem_filterMap]
  constructor
  · rintro ⟨kind, ⟨i, hi, hkind⟩, hnamed⟩
    cases kind with
    | named index' name' spelling =>
      obtain ⟨rfl, rfl⟩ := Prod.mk.inj (Option.some.inj hnamed)
      exact ⟨i, hi, spelling, hkind⟩
    | _ => nomatch hnamed
  · rintro ⟨i, hi, spelling, hkind⟩
    exact ⟨_, ⟨i, hi, hkind⟩, rfl⟩

/-- Groups are numbered in the order of their opening.  In the walk over the
    tree of a parsed pattern, the capturing groups carry the numbers from 1
    up to their count, each once and in order, and no other group carries a
    number.  The names of the pattern are those of its named groups, no two
    of which share one, and each name leads to the number of its group. -/
theorem groups_numbered_as_opened (h : parse text = .ok p) :
    ((p.walk.filterMap p.arena.groupKind?).filter GroupKind.isCapturing).map GroupKind.index? =
        (List.range' 1 p.groupCount).map some ∧
      (∀ i ∈ p.walk, ∀ kind, p.arena.groupKind? i = some kind → kind.isCapturing = false →
        kind.index? = none) ∧
      (p.groupNames.map Prod.fst).Nodup ∧
      (∀ name index, p.groupNames.lookup name = some index ↔
        ∃ i ∈ p.walk, ∃ spelling, p.arena.groupKind? i = some (.named index name spelling)) ∧
      ∀ i ∈ p.walk, ∀ j ∈ p.walk, ∀ name, p.arena.groupName? i = some name →
        p.arena.groupName? j = some name → i = j := by
  obtain ⟨hnumbers, -, hdistinct⟩ := groupKinds_of_parse h
  refine ⟨?_, fun _ _ _ _ => GroupKind.index?_eq_none, hdistinct,
    fun _ _ => lookup_groupNames_iff h, fun i hi j hj _ => groupName?_unique h hi hj⟩
  rw [filterMap_walk_of_parse h, GroupKind.map_index?_filter, hnumbers]

/-- The group `b` closes before the group around it, which has the smaller
    number. -/
theorem groups_numbered_as_opened_of_nested :
    ∃ p, parse "(?<a>x)|(?:y(z(?P<b>w)*))".toList = .ok p ∧
      ((p.walk.filterMap p.arena.groupKind?).filter GroupKind.isCapturing).map GroupKind.index? =
        [some 1, some 2, some 3] ∧
      p.groupNames.lookup ['b'] = some 3 ∧
      ∃ i ∈ p.walk, ∃ spelling, p.arena.groupKind? i = some (.named 3 ['b'] spelling) := by
  have hcheck : (parse "(?<a>x)|(?:y(z(?P<b>w)*))".toList).toOption.any (fun p =>
      p.groupCount == 3 && p.groupNames.lookup ['b'] == some 3) = true := by decide +kernel
  obtain ⟨p, hp, hcheck⟩ := exists_of_check hcheck
  simp only [Bool.and_eq_true, beq_iff_eq] at hcheck
  obtain ⟨hcount, hlookup⟩ := hcheck
  obtain ⟨hnumbers, -, -, hnames, -⟩ := groups_numbered_as_opened hp
  rw [hcount] at hnumbers
  exact ⟨p, hp, hnumbers, hlookup, (hnames _ _).mp hlookup⟩

end Pattern

end RegexInsight
