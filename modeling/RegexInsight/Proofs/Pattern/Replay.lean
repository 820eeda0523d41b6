import Mathlib
import RegexInsight.Proofs.Pattern.RoundTrip
import RegexInsight.Proofs.Pattern.Token

/-! # Replaying a part of a pattern

    What was read between two places of a pattern can be read again from
    another state, from the same characters: `ItemAt` says so for one item,
    `RowAt` for items in a row, `BarsAt` for branches and `BodyAt` for all
    that stands in a frame.  The same items come about, except that groups
    are numbered anew and positions differ.  Each form of item has a lemma
    that builds it from its parts, and a body that fills a text is what the
    text is parsed as. -/

namespace RegexInsight

/-! ## Section 1: Trees without group numbers -/

/-- A label without the number of a group. -/
def Label.unnumbered : Label → Label
  | group kind => .group kind.unnumbered
  | other => other

namespace Shape

mutual

/-- A tree of labels without the numbers of groups. -/
def unnumbered : Shape → Shape
  | node label children => .node label.unnumbered (unnumberedAll children)

/-- Some trees without the numbers of groups. -/
def unnumberedAll : List Shape → List Shape
  | [] => []
  | s :: rest => s.unnumbered :: unnumberedAll rest

end

theorem unnumberedAll_eq_map (shapes : List Shape) :
    unnumberedAll shapes = shapes.map unnumbered := by
  induction shapes with
  | nil => rfl
  | cons s rest ih => rw [unnumberedAll, ih, List.map_cons]

theorem unnumbered_node (label : Label) (children : List Shape) :
    (node label children).unnumbered = .node label.unnumbered (children.map unnumbered) := by
  rw [unnumbered, unnumberedAll_eq_map]

theorem unnumbered_branch (items : List Shape) :
    (branch items).unnumbered = branch (items.map unnumbered) := by
  rcases items with _ | ⟨first, _ | ⟨second, rest⟩⟩
  · exact unnumbered_node _ _
  · rfl
  · exact unnumbered_node _ _

theorem unnumbered_body (bodies : List Shape) :
    (body bodies).unnumbered = body (bodies.map unnumbered) := by
  rcases bodies with _ | ⟨first, _ | ⟨second, rest⟩⟩
  · exact unnumbered_node _ _
  · rfl
  · exact unnumbered_node _ _

end Shape

theorem Opener.unnumbered_closed (opener : Opener) (bodies : List Shape) :
    (opener.closed bodies).unnumbered = opener.unnumbered.closed (bodies.map Shape.unnumbered) := by
  cases opener with
  | root => exact Shape.unnumbered_body bodies
  | group kind =>
    rw [closed, Shape.unnumbered_node, List.map_singleton, Shape.unnumbered_body]
    rfl
  | lookaround direction negated =>
    rw [closed, Shape.unnumbered_node, List.map_singleton, Shape.unnumbered_body]
    rfl
  | conditional condition => exact Shape.unnumbered_node _ _

namespace Node

/-- The tree of labels below a node, without the numbers of groups. -/
def outline (n : Node) : Shape :=
  n.shape.unnumbered

theorem outline_eq (n : Node) :
    n.outline = .node n.label.unnumbered (n.children.map outline) := by
  obtain ⟨label, mark, children⟩ := n
  rw [outline, shape, shapes_eq_map, Shape.unnumbered_node, List.map_map]
  rfl

theorem outline_build (count : Nat) (label : Label) (start stop : Nat) (children : List Node) :
    (build count label start stop children).outline =
      .node label.unnumbered (children.map outline) :=
  outline_eq _

theorem label_of_outline {n m : Node} (h : n.outline = m.outline) :
    n.label.unnumbered = m.label.unnumbered := by
  obtain ⟨label, mark, children⟩ := n
  obtain ⟨label', mark', children'⟩ := m
  exact (Shape.node.inj h).1

theorem isRepeatable_of_outline {n m : Node} (h : n.outline = m.outline) :
    n.label.isRepeatable = m.label.isRepeatable := by
  have hlabel : ∀ label : Label, label.unnumbered.isRepeatable = label.isRepeatable := by
    intro label
    cases label <;> rfl
  rw [← hlabel, label_of_outline h, hlabel]

/-- The names of the groups in a tree, in pattern order. -/
def names (n : Node) : List Text :=
  n.groupKinds.filterMap GroupKind.name?

end Node

namespace Frame

/-- The names of the groups in the items of a frame. -/
def itemNames (f : Frame) : List Text :=
  f.nodes.flatMap Node.names

/-- The trees of the branches of a frame, without the numbers of groups. -/
def outlines (f : Frame) : List Shape :=
  f.branches.map fun items => Shape.branch (items.map Node.outline)

theorem outlines_eq (f : Frame) : f.outlines = f.bodies.map Shape.unnumbered := by
  rw [outlines, bodies, List.map_map]
  refine List.map_congr_left fun items _ => ?_
  show _ = (branchShape items).unnumbered
  rw [branchShape, Shape.unnumbered_branch, List.map_map]
  rfl

/-- A closed frame carries the name of its opener and those of its items. -/
theorem names_close {f : Frame} {count stop count' : Nat} {node : Node}
    (h : f.close count stop = .ok (node, count')) : node.names = f.opener.names ++ f.itemNames := by
  have hitems : (f.explicit.filterMap fun m => m.label.groupKind?).filterMap GroupKind.name? =
      f.itemNames := by
    rw [explicit, List.filterMap_flatMap, List.filterMap_flatMap, itemNames]
    refine List.flatMap_congr fun n _ => ?_
    rw [Node.names, n.groupKinds_eq_explicit]
  rw [Node.names, groupKinds_close h, groupKinds, List.filterMap_append, hitems]
  rfl

/-- A frame of a group or lookaround closes into what its opener asks for. -/
theorem outline_close {f : Frame} {count stop count' : Nat} {node : Node}
    (h : f.close count stop = .ok (node, count'))
    (hopener : ∀ condition, f.opener ≠ .conditional condition) :
    node.outline = f.opener.unnumbered.closed f.outlines := by
  obtain ⟨node', count'', hclose, hshape⟩ := f.exists_close count stop
    fun condition heq => absurd heq (hopener condition)
  obtain ⟨rfl, -⟩ := Prod.mk.inj (Except.ok.inj (h.symm.trans hclose))
  rw [Node.outline, hshape, Opener.unnumbered_closed, outlines_eq]

end Frame

namespace ParserState

variable {P Q : Cursor → Node → Nat → Prop} {s t u : ParserState} {cur : Cursor} {item : Node}
  {items : List Node} {finished : List (List Node)} {m n : Nat} {names names' : List Text} {label : Label}

/-! ## Section 2: Steps within a frame -/

/-- Steps read `n` characters in the current frame: the frames around it and
    the references stay, and the given names are added. -/
structure Follows (t u : ParserState) (n : Nat) (names : List Text) : Prop where
  runs : t.RunsTo u
  rest : u.cur.rest = t.cur.rest.drop n
  outer : u.outer = t.outer
  opener : u.frame.opener = t.frame.opener
  modes : u.frame.modes = t.frame.modes
  names : u.names.map Prod.fst = t.names.map Prod.fst ++ names
  references : u.references = t.references

theorem Follows.refl (t : ParserState) : t.Follows t 0 [] where
  runs := .refl
  rest := rfl
  outer := rfl
  opener := rfl
  modes := rfl
  names := (List.append_nil _).symm
  references := rfl

theorem Follows.trans (h : t.Follows u m names) (h' : u.Follows s n names') :
    t.Follows s (m + n) (names ++ names') where
  runs := h.runs.trans h'.runs
  rest := by rw [h'.rest, h.rest, List.drop_drop]
  outer := h'.outer.trans h.outer
  opener := h'.opener.trans h.opener
  modes := h'.modes.trans h.modes
  names := by rw [h'.names, h.names, List.append_assoc]
  references := h'.references.trans h.references

/-- Names that are new to all that is read are new to its first part. -/
theorem nodup_first (h : (t.names.map Prod.fst ++ (names ++ names')).Nodup) :
    (t.names.map Prod.fst ++ names).Nodup := by
  rw [← List.append_assoc] at h
  exact (List.nodup_append.mp h).1

theorem Follows.nodup_second (h : t.Follows u n names)
    (hnodup : (t.names.map Prod.fst ++ (names ++ names')).Nodup) :
    (u.names.map Prod.fst ++ names').Nodup := by
  rw [h.names, List.append_assoc]
  exact hnodup

/-- What was read is cut off. -/
theorem Follows.cut (h : t.Follows u m names) (hcut : cur.Cut t.cur (m + n)) :
    (cur.advance m).Cut u.cur n :=
  hcut.behind h.rest

/-! ## Section 3: Items -/

/-- Wherever no flag is in force and no name is taken, the `n` characters at
    the cursor are read as the item, whatever is left of the text behind
    them. -/
def ItemAt (cur : Cursor) (item : Node) (n : Nat) : Prop :=
  ∀ t : ParserState, t.frame.modes = .none → cur.Cut t.cur n →
    (t.names.map Prod.fst ++ item.names).Nodup →
    ∃ u item', t.Follows u n item.names ∧ u.frame.finished = t.frame.finished ∧
      u.frame.items = item' :: t.frame.items ∧ item'.outline = item.outline ∧
      (item.label.isQuantifier = false → u.frame.quantified = false)

theorem ItemAt.shorten {cur' : Cursor} (h : ItemAt cur item n)
    (hshort : cur'.rest <+: cur.rest) : ItemAt cur' item n := by
  intro t hmodes hcut hnames
  exact h t hmodes ⟨hcut.before.trans hshort, hcut.length⟩ hnames

theorem names_leaf {count start stop : Nat} (h : label.IsPlain .none) :
    (Node.build count label start stop []).names = [] := by
  rw [Node.names, Node.groupKinds, Node.preorder_build, List.filterMap_cons, Node.label_build,
    Label.groupKind?_of_isPlain h]
  rfl

theorem LeafAt.itemAt {count start stop : Nat} (h : LeafAt cur label n)
    (hlabel : label.IsPlain .none) : ItemAt cur (.build count label start stop []) n := by
  intro t hmodes hcut _
  obtain ⟨start', stop', after, hrest, hnext⟩ := h t hmodes hcut
  have hfollows : t.Follows ((t.addLeaf ⟨label, start', stop'⟩).moveTo after) n [] := {
    runs := .single hnext
    rest := hrest
    outer := rfl
    opener := rfl
    modes := rfl
    names := (List.append_nil _).symm
    references := rfl }
  rw [names_leaf hlabel]
  refine ⟨_, _, hfollows, rfl, rfl, ?_, fun _ => rfl⟩
  rw [Node.outline_build, Node.outline_build]

theorem QuantifierAt.itemAt {bounds : Bounds} {mode : QuantifierMode} {count start stop : Nat}
    (h : QuantifierAt (cur.advance m) bounds mode n) (hitem : ItemAt cur item m)
    (hrepeatable : item.label.isRepeatable = true) (hfirst : item.label.isQuantifier = false) :
    ItemAt cur (.build count (.quantifier bounds mode) start stop [item]) (m + n) := by
  have hnames :
      (Node.build count (.quantifier bounds mode) start stop [item]).names = item.names := by
    rw [Node.names, Node.groupKinds_quantifier, Node.names]
  intro t hmodes hcut hfresh
  rw [hnames] at hfresh ⊢
  obtain ⟨u, item', hfollows, hfinished, hitems, houtline, hquantified⟩ :=
    hitem t hmodes (hcut.mono (Nat.le_add_right m n)) hfresh
  -- the item that is read again has the outline of the first one
  have hrepeatable' : item'.label.isRepeatable = true := by
    rw [Node.isRepeatable_of_outline houtline, hrepeatable]
  obtain ⟨after, hafter, hnext⟩ := h u item' t.frame.items (hfollows.modes.trans hmodes)
    (hfollows.cut hcut) (hquantified hfirst) hitems hrepeatable'
  have hfollows' : t.Follows (u.putQuantifier bounds mode item' t.frame.items after) (m + n)
      item.names := {
    runs := hfollows.runs.tail hnext
    rest := by
      show after.rest = _
      rw [hafter, hfollows.rest, List.drop_drop]
    outer := hfollows.outer
    opener := hfollows.opener
    modes := hfollows.modes
    names := hfollows.names
    references := hfollows.references }
  refine ⟨_, _, hfollows', hfinished, rfl, ?_, nofun⟩
  rw [Node.outline_build, Node.outline_build, List.map_singleton, List.map_singleton, houtline]

/-! ## Section 4: Rows and branches -/

/-- Items stand one after the other, each as `P` says of the characters
    between its cursor and the next one; the latest item stands first. -/
inductive RowAt (P : Cursor → Node → Nat → Prop) (cur : Cursor) : List Node → Nat → Prop where
  | nil : RowAt P cur [] 0
  | cons {item : Node} {items : List Node} {m n : Nat} (hrow : RowAt P cur items m)
      (hitem : P (cur.advance m) item n) : RowAt P cur (item :: items) (m + n)

theorem RowAt.imp (h : RowAt P cur items n)
    (himp : ∀ {cur : Cursor} {item : Node} {n : Nat}, P cur item n → Q cur item n) :
    RowAt Q cur items n := by
  induction h with
  | nil => exact .nil
  | cons _ hitem ih => exact .cons ih (himp hitem)

theorem RowAt.exists_follows (h : RowAt ItemAt cur items n) (hmodes : t.frame.modes = .none)
    (hcut : cur.Cut t.cur n)
    (hnames : (t.names.map Prod.fst ++ items.reverse.flatMap Node.names).Nodup) :
    ∃ u items', t.Follows u n (items.reverse.flatMap Node.names) ∧
      u.frame.finished = t.frame.finished ∧ u.frame.items = items' ++ t.frame.items ∧
      items'.map Node.outline = items.map Node.outline := by
  induction h with
  | nil => exact ⟨t, [], .refl t, rfl, rfl, rfl⟩
  | @cons item items m n hrow hitem ih =>
    rw [List.reverse_cons, List.flatMap_append, List.flatMap_singleton] at hnames ⊢
    obtain ⟨u, items', hfollows, hfinished, hitems, houtlines⟩ :=
      ih (hcut.mono (Nat.le_add_right m n)) (nodup_first hnames)
    obtain ⟨v, item', hfollows', hfinished', hitems', houtline, -⟩ :=
      hitem u (hfollows.modes.trans hmodes) (hfollows.cut hcut) (hfollows.nodup_second hnames)
    refine ⟨v, item' :: items', hfollows.trans hfollows', hfinished'.trans hfinished, ?_, ?_⟩
    · rw [hitems', hitems, List.cons_append]
    · rw [List.map_cons, List.map_cons, houtline, houtlines]

/-- Branches stand one after the other, each with the bar behind it; the
    latest one stands first. -/
inductive BarsAt (P : Cursor → Node → Nat → Prop) (cur : Cursor) :
    List (List Node) → Nat → Prop where
  | nil : BarsAt P cur [] 0
  | cons {finished : List (List Node)} {items : List Node} {m n : Nat} {rest : Text}
      (hbars : BarsAt P cur finished m) (hrow : RowAt P (cur.advance m) items n)
      (hbar : (cur.advance (m + n)).rest = '|' :: rest) :
      BarsAt P cur (items.reverse :: finished) (m + n + 1)

theorem BarsAt.imp (h : BarsAt P cur finished n)
    (himp : ∀ {cur : Cursor} {item : Node} {n : Nat}, P cur item n → Q cur item n) :
    BarsAt Q cur finished n := by
  induction h with
  | nil => exact .nil
  | cons _ hrow hbar ih => exact .cons ih (hrow.imp himp) hbar

/-- A bar begins the next branch. -/
theorem exists_follows_bar {rest : Text} (hrest : cur.rest = '|' :: rest)
    (hmodes : t.frame.modes = .none) (hcut : cur.Cut t.cur 1) :
    ∃ u, t.Follows u 1 [] ∧ u.frame.finished = t.frame.items.reverse :: t.frame.finished ∧
      u.frame.items = [] := by
  obtain ⟨tail, htail, -⟩ := hcut.exists_cons hrest Nat.one_pos
  have hfollows :
      t.Follows ({ t with frame := t.frame.nextBranch }.moveTo (t.cur.advance 1)) 1 [] := {
    runs := .single (next_bar hmodes htail)
    rest := rfl
    outer := rfl
    opener := rfl
    modes := rfl
    names := (List.append_nil _).symm
    references := rfl }
  exact ⟨_, hfollows, rfl, rfl⟩

theorem BarsAt.exists_follows (h : BarsAt ItemAt cur finished n) (hmodes : t.frame.modes = .none)
    (hfinished : t.frame.finished = []) (hitems : t.frame.items = []) (hcut : cur.Cut t.cur n)
    (hnames : (t.names.map Prod.fst ++ finished.reverse.flatten.flatMap Node.names).Nodup) :
    ∃ u, t.Follows u n (finished.reverse.flatten.flatMap Node.names) ∧ u.frame.items = [] ∧
      u.frame.finished.map (List.map Node.outline) = finished.map (List.map Node.outline) := by
  induction h with
  | nil =>
    refine ⟨t, .refl t, hitems, ?_⟩
    rw [hfinished]
  | @cons finished items m n rest hbars hrow hbar ih =>
    have hsplit : (items.reverse :: finished).reverse.flatten.flatMap Node.names =
        finished.reverse.flatten.flatMap Node.names ++ items.reverse.flatMap Node.names := by
      simp
    -- the names of the last branch are apart from those before it
    rw [hsplit] at hnames ⊢
    obtain ⟨u, hfollows, hempty, houtlines⟩ := ih (hcut.mono (by omega)) (nodup_first hnames)
    have hmodes' := hfollows.modes.trans hmodes
    obtain ⟨v, items', hfollows', hfinished', hitems', houtlines'⟩ := hrow.exists_follows hmodes'
      (hfollows.cut (hcut.mono (Nat.le_succ (m + n)))) (hfollows.nodup_second hnames)
    have hboth := hfollows.trans hfollows'
    obtain ⟨w, hfollows'', hfinished'', hempty''⟩ :=
      exists_follows_bar hbar (hboth.modes.trans hmodes) (hboth.cut hcut)
    refine ⟨w, ?_, hempty'', ?_⟩
    · have hall := hboth.trans hfollows''
      rwa [List.append_nil] at hall
    · rw [hfinished'', hitems', hempty, List.append_nil, hfinished', List.map_cons, List.map_cons,
        houtlines, List.map_reverse, List.map_reverse, houtlines']

/-! ## Section 5: Bodies -/

/-- The branches of a frame stand in the `n` characters at the cursor. -/
inductive BodyAt (P : Cursor → Node → Nat → Prop) (cur : Cursor) (f : Frame) : Nat → Prop where
  | intro {m n : Nat} (hbars : BarsAt P cur f.finished m)
      (hrow : RowAt P (cur.advance m) f.items n) : BodyAt P cur f (m + n)

section Body

variable {f g : Frame}

theorem BodyAt.imp (h : BodyAt P cur f n)
    (himp : ∀ {cur : Cursor} {item : Node} {n : Nat}, P cur item n → Q cur item n) :
    BodyAt Q cur f n := by
  obtain ⟨hbars, hrow⟩ := h
  exact .intro (hbars.imp himp) (hrow.imp himp)

theorem BodyAt.opened {opener : Opener} {start : Nat} {modes : Modes} :
    BodyAt P cur (Frame.opened opener start modes) 0 :=
  .intro (m := 0) (n := 0) .nil .nil

/-- A row alone is a body. -/
theorem RowAt.bodyAt (h : RowAt P cur items n) :
    BodyAt P cur ⟨.root, 0, .none, [], items, false⟩ n := by
  have hbody : BodyAt P cur ⟨.root, 0, .none, [], items, false⟩ (0 + n) :=
    .intro .nil (by rw [Cursor.advance_zero]; exact h)
  rwa [Nat.zero_add] at hbody

theorem BodyAt.of_items (h : BodyAt P cur f n) (hfinished : g.finished = f.finished)
    (hitems : g.items = f.items) : BodyAt P cur g n := by
  obtain ⟨hbars, hrow⟩ := h
  rw [← hfinished] at hbars
  rw [← hitems] at hrow
  exact .intro hbars hrow

theorem BodyAt.push (h : BodyAt P cur f m) (hitem : P (cur.advance m) item n) :
    BodyAt P cur (f.push item) (m + n) := by
  obtain @⟨j, k, hbars, hrow⟩ := h
  rw [← Cursor.advance_advance] at hitem
  rw [Nat.add_assoc]
  exact .intro hbars (.cons hrow hitem)

theorem BodyAt.nextBranch {rest : Text} (h : BodyAt P cur f n)
    (hbar : (cur.advance n).rest = '|' :: rest) : BodyAt P cur f.nextBranch (n + 1) := by
  obtain ⟨hbars, hrow⟩ := h
  exact .intro (n := 0) (.cons hbars hrow hbar) .nil

/-- Without its last item a body ends where that item stands. -/
theorem BodyAt.exists_last (h : BodyAt P cur f n) (hitems : f.items = item :: items) :
    ∃ j k, n = j + k ∧ P (cur.advance j) item k ∧ BodyAt P cur { f with items := items } j := by
  obtain @⟨i, m, hbars, hrow⟩ := h
  rw [hitems] at hrow
  cases hrow with
  | @cons _ _ j k hrow hitem =>
    rw [Cursor.advance_advance] at hitem
    exact ⟨i + j, k, (Nat.add_assoc i j k).symm, hitem, .intro hbars hrow⟩

end Body

theorem itemNames_eq (f : Frame) : f.itemNames =
    f.finished.reverse.flatten.flatMap Node.names ++ f.items.reverse.flatMap Node.names := by
  simp [Frame.itemNames, Frame.nodes, Frame.branches]

theorem outlines_eq_of_map {f g : Frame}
    (hfinished : f.finished.map (List.map Node.outline) = g.finished.map (List.map Node.outline))
    (hitems : f.items.map Node.outline = g.items.map Node.outline) : f.outlines = g.outlines := by
  have hbranches : ∀ f : Frame, f.outlines = ((f.items.map Node.outline).reverse ::
      f.finished.map (List.map Node.outline)).reverse.map Shape.branch := by
    intro f
    simp [Frame.outlines, Frame.branches]
  rw [hbranches, hbranches, hfinished, hitems]

theorem BodyAt.exists_follows {f : Frame} (h : BodyAt ItemAt cur f n)
    (hmodes : t.frame.modes = .none) (hfinished : t.frame.finished = [])
    (hitems : t.frame.items = []) (hcut : cur.Cut t.cur n)
    (hnames : (t.names.map Prod.fst ++ f.itemNames).Nodup) :
    ∃ u, t.Follows u n f.itemNames ∧ u.frame.outlines = f.outlines := by
  obtain ⟨hbars, hrow⟩ := h
  rw [itemNames_eq] at hnames ⊢
  obtain ⟨u, hfollows, hempty, houtlines⟩ := hbars.exists_follows hmodes hfinished hitems
    (hcut.mono (Nat.le_add_right _ _)) (nodup_first hnames)
  obtain ⟨v, items', hfollows', hfinished', hitems', houtlines'⟩ := hrow.exists_follows
    (hfollows.modes.trans hmodes) (hfollows.cut hcut) (hfollows.nodup_second hnames)
  refine ⟨v, hfollows.trans hfollows', outlines_eq_of_map ?_ ?_⟩
  · rw [hfinished', houtlines]
  · rw [hitems', hempty, List.append_nil, houtlines']

theorem not_conditional_of_unnumbered {opener opener' : Opener} (h : opener.Encloses)
    (heq : opener'.unnumbered = opener.unnumbered) (condition : Text) :
    opener' ≠ .conditional condition := by
  rintro rfl
  cases h with
  | group => nomatch heq
  | lookaround => nomatch heq

/-- A step from `t` opens a frame in which nothing has been read. -/
structure Enters (t u : ParserState) (opened : Opener) (n : Nat) : Prop where
  next : Next t u
  rest : u.cur.rest = t.cur.rest.drop n
  outer : u.outer = t.frame :: t.outer
  opener : u.frame.opener.unnumbered = opened.unnumbered
  modes : u.frame.modes = .none
  finished : u.frame.finished = []
  items : u.frame.items = []
  names : u.names.map Prod.fst = t.names.map Prod.fst ++ opened.names
  references : u.references = t.references

theorem OpeningAt.exists_enters {opener : Opener} (h : OpeningAt cur opener n)
    (hmodes : t.frame.modes = .none) (hcut : cur.Cut t.cur n)
    (hnames : (t.names.map Prod.fst ++ opener.names).Nodup) : ∃ u, t.Enters u opener n := by
  obtain ⟨opener', groups, names, hopener, hnames', start, after, hafter, hnext⟩ :=
    h t hmodes hcut hnames
  have henters : t.Enters ({ t with groups := groups, names := names }.enter opener' start .none
      after) opener n := {
    next := hnext
    rest := hafter
    outer := rfl
    opener := hopener
    modes := rfl
    finished := rfl
    items := rfl
    names := hnames'
    references := rfl }
  exact ⟨_, henters⟩

/-- Before a closing parenthesis the current frame closes into a node of the
    frame around it. -/
theorem exists_next_closing {frame : Frame} {outer : List Frame} {rest : Text}
    (hrest : t.cur.rest = ')' :: rest) (houter : t.outer = frame :: outer)
    (hopener : ∀ condition, t.frame.opener ≠ .conditional condition) :
    ∃ node count, node.outline = t.frame.opener.unnumbered.closed t.frame.outlines ∧
      Next t { t with
        cur := t.cur.advance 1, frame := frame.push node, outer := outer, count := count } := by
  obtain ⟨node, count, hclose, -⟩ := t.frame.exists_close t.count (t.cur.advance 1).pos
    fun condition heq => absurd heq (hopener condition)
  exact ⟨node, count, Frame.outline_close hclose hopener, next_closing hrest houter hclose⟩

/-- A body between its opening and its closing is an item. -/
theorem BodyAt.itemAt {f : Frame} {stop count count' : Nat} {node : Node} {rest : Text}
    (hbody : BodyAt ItemAt (cur.advance m) f n) (hopens : OpeningAt cur f.opener m)
    (hopener : f.opener.Encloses) (hbrace : (cur.advance (m + n)).rest = ')' :: rest)
    (hclose : f.close count stop = .ok (node, count')) : ItemAt cur node (m + n + 1) := by
  intro t hmodes hcut hfresh
  rw [Frame.names_close hclose] at hfresh ⊢
  -- from `t` the opening leads to `u`, the body to `v`, and the closing back
  -- to the frame of `t`
  obtain ⟨u, henters⟩ := hopens.exists_enters hmodes (hcut.mono (by omega)) (nodup_first hfresh)
  have hcut' : (cur.advance m).Cut u.cur (n + 1) :=
    (Nat.add_assoc m n 1 ▸ hcut).behind henters.rest
  have hfresh' : (u.names.map Prod.fst ++ f.itemNames).Nodup := by
    rw [henters.names, List.append_assoc]
    exact hfresh
  obtain ⟨v, hfollows, houtlines⟩ := hbody.exists_follows henters.modes henters.finished
    henters.items (hcut'.mono (Nat.le_succ n)) hfresh'
  have hsame : v.frame.opener.unnumbered = f.opener.unnumbered := by
    rw [hfollows.opener, henters.opener]
  have hbrace' : ((cur.advance m).advance n).rest = ')' :: rest := by
    rw [Cursor.advance_advance, hbrace]
  obtain ⟨tail, htail, -⟩ := (hfollows.cut hcut').exists_cons hbrace' Nat.one_pos
  obtain ⟨item, count'', houtline, hnext⟩ := exists_next_closing htail
    (hfollows.outer.trans henters.outer) (not_conditional_of_unnumbered hopener hsame)
  have hall : t.Follows { v with
      cur := v.cur.advance 1, frame := t.frame.push item, outer := t.outer, count := count'' }
      (m + n + 1) (f.opener.names ++ f.itemNames) := {
    runs := (hfollows.runs.tail hnext).head henters.next
    rest := by
      show v.cur.rest.drop 1 = _
      rw [hfollows.rest, henters.rest, List.drop_drop, List.drop_drop, Nat.add_assoc]
    outer := rfl
    opener := rfl
    modes := rfl
    names := by
      show v.names.map Prod.fst = _
      rw [hfollows.names, henters.names, List.append_assoc]
    references := hfollows.references.trans henters.references }
  refine ⟨_, item, hall, rfl, rfl, ?_, fun _ => rfl⟩
  rw [houtline, hsame, houtlines,
    Frame.outline_close hclose (not_conditional_of_unnumbered hopener rfl)]

/-- A body that fills a text is what the text is parsed as. -/
theorem BodyAt.parse {f : Frame} (h : BodyAt ItemAt cur f n) (hfull : cur.rest.length = n)
    (hnames : f.itemNames.Nodup) :
    ∃ p, Pattern.parse cur.rest = .ok p ∧ p.root.outline = Shape.body f.outlines := by
  subst hfull
  have hcut : cur.Cut (initial cur.rest).cur cur.rest.length :=
    ⟨List.prefix_refl _, Nat.le_refl _⟩
  obtain ⟨last, hfollows, houtlines⟩ := h.exists_follows rfl rfl rfl hcut hnames
  -- the frame of a whole text is never a conditional, so it can be closed
  have hopener : last.frame.opener = .root := hfollows.opener
  have hcondition : ∀ condition, last.frame.opener ≠ .conditional condition := by
    rw [hopener]
    nofun
  obtain ⟨root, count, hclose, -⟩ := last.frame.exists_close last.count last.cur.pos
    fun condition heq => absurd heq (hcondition condition)
  -- nothing was referred to
  have hcheck : last.checkReferences = .ok () := by
    refine checkReferences_eq_ok_iff.mpr fun r hr => ?_
    rw [hfollows.references] at hr
    exact absurd hr List.not_mem_nil
  have hfinish : last.finish = .ok root :=
    finish_eq_ok_iff.mpr ⟨hfollows.outer, ⟨count, hclose⟩, hcheck⟩
  have hend : last.cur.rest = [] := by
    rw [hfollows.rest]
    exact List.drop_length
  refine ⟨_, Pattern.parse_eq_ok_iff.mpr ⟨last, root, hfollows.runs, hend, hfinish, rfl⟩, ?_⟩
  show root.outline = _
  rw [Frame.outline_close hclose hcondition, hopener, houtlines]
  rfl

end ParserState

end RegexInsight
