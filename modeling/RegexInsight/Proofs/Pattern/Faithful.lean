import Mathlib
import RegexInsight.Proofs.Pattern.Offset
import RegexInsight.Proofs.Pattern.ReadBack

/-! # The text of a node

    A pattern without flags and references, in which nothing is skipped or
    quoted, is a nest of frames all of whose characters belong to an item,
    a bar or an opening.  `FramesAt` is this for the frames that are open
    at some point of the text, and every token keeps it.  At the end it
    gives the text of each node: the text is parsed as a pattern for the
    node unless the span was set too early or too late, and only then. -/

namespace RegexInsight

namespace ParserState

variable {text : Text} {s s' last : ParserState} {f g frame : Frame} {outer : List Frame}
  {label : Label} {opener : Opener} {i k m n : Nat}

/-! ## Section 1: Self-contained states -/

/-- A frame that is open stays open, until it closes into the node that its
    opener asks for. -/
theorem Move.mem_openers (h : Move s s') (hopener : opener ∈ s.openers)
    (hlabel : opener.label? = some label) :
    opener ∈ s'.openers ∨ ∃ n ∈ s'.explicit, n.label = label := by
  cases h with
  | @plain leaves =>
    left
    rw [← (openers_foldl_addLeaf leaves).1] at hopener
    exact hopener
  | enter => exact .inl (List.mem_cons_of_mem _ hopener)
  | enterCapturing => exact .inl (List.mem_cons_of_mem _ hopener)
  | enterNamed => exact .inl (List.mem_cons_of_mem _ hopener)
  | enterConditional => exact .inl (List.mem_cons_of_mem _ hopener)
  | @close frame outer node count cur _ houter hclose =>
    rcases List.mem_cons.mp hopener with rfl | hopener
    · rcases Frame.explicit_close hclose with ⟨hroot, -⟩ | ⟨hnode, hexplicit⟩
      · simp [hroot, Opener.label?] at hlabel
      · refine .inr ⟨node, ?_, Option.some.inj (hnode.symm.trans hlabel)⟩
        simp [explicit, hexplicit]
    · left
      rw [houter] at hopener
      exact hopener
  | _ => exact .inl hopener

theorem RunsTo.mem_openers (h : s.RunsTo last) (hopener : opener ∈ s.openers)
    (hlabel : opener.label? = some label) :
    opener ∈ last.openers ∨ ∃ n ∈ last.explicit, n.label = label := by
  induction h with
  | refl => exact .inl hopener
  | @tail t u _ hnext ih =>
    rcases ih with hopen | ⟨n, hn, hlabel'⟩
    · exact hnext.move.mem_openers hopen hlabel
    · have hstep : t.RunsTo u := .single hnext
      exact .inr ⟨n, hstep.explicit_subset hn, hlabel'⟩

/-- What all labels of a tree have in common, those have that come about on the
    way to it. -/
theorem label_of_finish {P : Label → Prop} {root : Node} (hruns : s.RunsTo last)
    (hnormal : last.IsNormal) (hfinish : last.finish = .ok root)
    (hroot : ∀ n ∈ root.preorder, P n.label) :
    (∀ n ∈ s.explicit, P n.label) ∧
      ∀ opener ∈ s.openers, ∀ label, opener.label? = some label → P label := by
  have hlast : ∀ n ∈ last.explicit, P n.label := by
    intro n hn
    rw [← hnormal.explicit_finish hfinish] at hn
    exact hroot n (Node.mem_explicit.mp hn).1
  refine ⟨fun n hn => hlast n (hruns.explicit_subset hn), fun opener hopener label hlabel => ?_⟩
  rcases hruns.mem_openers hopener hlabel with hopen | ⟨n, hn, rfl⟩
  · obtain ⟨houter, -, -⟩ := finish_eq_ok_iff.mp hfinish
    rw [openers, houter, hnormal.root_of_outer houter] at hopen
    obtain rfl := List.mem_singleton.mp hopen
    simp [Opener.label?] at hlabel
  · exact hlast n hn

/-- What comes about on the way to a self-contained tree is self-contained. -/
theorem isSelfContained_of_finish {root : Node} (hruns : s.RunsTo last) (hnormal : last.IsNormal)
    (hfinish : last.finish = .ok root)
    (hroot : ∀ n ∈ root.preorder, n.label.isSelfContained = true) : s.IsSelfContained := by
  obtain ⟨hnodes, hopeners⟩ :=
    label_of_finish (P := fun label => label.isSelfContained = true) hruns hnormal hfinish hroot
  exact ⟨hnodes, hopeners⟩

/-! ## Section 2: Frames in a text -/

/-- The open frames, the innermost one first, fill the text up to an
    offset. -/
inductive FramesAt (text : Text) : Frame → List Frame → Nat → Prop where
  | root {f : Frame} {n : Nat} (hopener : f.opener = .root) (hmodes : f.modes = .none)
      (hbody : BodyAt (SpanAt text) (Cursor.ofOffset text 0) f n) : FramesAt text f [] n
  | nested {f frame : Frame} {outer : List Frame} {m k n : Nat}
      (houter : FramesAt text frame outer m) (hopener : f.opener.Encloses)
      (hmodes : f.modes = .none)
      (hstart : f.start = m) (hopens : OpeningAt (Cursor.ofOffset text m) f.opener k)
      (hbody : BodyAt (SpanAt text) (Cursor.ofOffset text (m + k)) f n) :
      FramesAt text f (frame :: outer) (m + k + n)

theorem FramesAt.modes (h : FramesAt text f outer n) : f.modes = .none := by
  cases h <;> assumption

/-- The innermost frame goes on. -/
theorem FramesAt.go_on (h : FramesAt text f outer i) (hopener : g.opener = f.opener)
    (hstart : g.start = f.start) (hmodes : g.modes = f.modes)
    (hbody : ∀ b n, b + n = i → BodyAt (SpanAt text) (Cursor.ofOffset text b) f n →
      BodyAt (SpanAt text) (Cursor.ofOffset text b) g (n + k)) :
    FramesAt text g outer (i + k) := by
  cases h with
  | root hopener' hmodes' hbody' =>
    exact .root (hopener.trans hopener') (hmodes.trans hmodes')
      (hbody 0 _ (Nat.zero_add _) hbody')
  | nested houter hopener' hmodes' hstart' hopens hbody' =>
    rw [Nat.add_assoc]
    rw [← hopener] at hopener' hopens
    exact .nested houter hopener' (hmodes.trans hmodes') (hstart.trans hstart') hopens
      (hbody _ _ rfl hbody')

/-- The innermost frame gets one more item. -/
theorem FramesAt.push {item : Node} (h : FramesAt text f outer i)
    (hitem : SpanAt text (Cursor.ofOffset text i) item k) :
    FramesAt text (f.push item) outer (i + k) := by
  refine h.go_on (g := f.push item) rfl rfl rfl ?_
  intro b n hoffset hbody
  rw [← hoffset, ← Cursor.advance_ofOffset] at hitem
  exact hbody.push hitem

/-- The text has been read up to the cursor, and all of it is accounted
    for. -/
structure IsPlaced (text : Text) (s : ParserState) : Prop where
  place : s.cur = Cursor.ofOffset text s.cur.pos
  length : s.cur.pos ≤ text.length
  frames : FramesAt text s.frame s.outer s.cur.pos

namespace IsPlaced

theorem initial (text : Text) : (ParserState.initial text).IsPlaced text where
  place := rfl
  length := Nat.zero_le _
  frames := .root rfl rfl .opened

theorem place_advance (h : s.IsPlaced text) (n : Nat) :
    s.cur.advance n = Cursor.ofOffset text (s.cur.pos + n) := by
  rw [← Cursor.advance_ofOffset, ← h.place]

theorem length_advance (h : s.IsPlaced text) (hlength : n ≤ s.cur.rest.length) :
    s.cur.pos + n ≤ text.length := by
  rw [h.place, Cursor.ofOffset, List.length_drop] at hlength
  have hpos := h.length
  omega

end IsPlaced

/-! ## Section 3: Tokens in a text -/

/-- The span of a leaf stands within its characters. -/
theorem LeafAt.spanAt {count width : Nat} (h : LeafAt (Cursor.ofOffset text i) label n)
    (hlabel : label.IsPlain .none) (hle : width ≤ n)
    (hspan : SpanShows (Cursor.ofOffset text i) label width) :
    SpanAt text (Cursor.ofOffset text i) (.build count label i (i + width) []) n where
  isItem := (Label.isItem_of_isPlain hlabel).1
  reads := h.itemAt hlabel
  start := rfl
  start_le := Nat.le_add_right i width
  stop_le := Nat.add_le_add_left hle i
  shows hends := by
    have hwidth : (Node.build count label i (i + width) []).stop -
        (Node.build count label i (i + width) []).start = width := Nat.add_sub_cancel_left i width
    rw [hwidth]
    rcases hspan with hbare | hleaf
    · have hsource : slice text i (i + width) = (Cursor.ofOffset text i).rest.take width := by
        rw [slice, Nat.add_sub_cancel_left]
        rfl
      rw [Node.build, Node.endsBare, hsource, hbare] at hends
      exact Bool.noConfusion hends
    · exact hleaf.itemAt hlabel
  below := nofun

/-- A quantifier stands behind its item. -/
theorem QuantifierAt.spanAt {item : Node} {bounds : Bounds} {mode : QuantifierMode}
    (h : QuantifierAt (Cursor.ofOffset text (i + m)) bounds mode n) (count : Nat)
    (hitem : SpanAt text (Cursor.ofOffset text i) item m)
    (hrepeatable : item.label.isRepeatable = true) (hfirst : item.label.isQuantifier = false)
    (hlength : i + m + n ≤ text.length) :
    SpanAt text (Cursor.ofOffset text i)
      (.build count (.quantifier bounds mode) item.start (i + m + n) [item]) (m + n) := by
  rw [← Cursor.advance_ofOffset] at h
  refine spanAt_of_whole rfl (h.itemAt hitem.reads hrepeatable hfirst) hitem.start
    (Nat.add_assoc i m n) fun child hchild => ?_
  obtain rfl := List.mem_singleton.mp hchild
  exact hitem.isFaithful (by omega)

/-- A frame of a group or lookaround closes into a node over its body. -/
theorem exists_close_encloses (h : f.opener.Encloses) {count stop count' : Nat} {node : Node}
    (hclose : f.close count stop = .ok (node, count')) :
    ∃ after index label, label.isItem = true ∧ node = .build index label f.start stop
      [(closeBody after (closeBranches count stop f.branches).1).1] := by
  cases f.closed_of_close hclose with
  | lookaround | group => exact ⟨_, _, _, rfl, rfl⟩
  | root hopener | conditional hopener =>
    rw [hopener] at h
    nomatch h

/-- A frame that closes is an item of the frame around it. -/
theorem BodyAt.spanAt {count count' : Nat} {node : Node} {rest : Text}
    (hbody : BodyAt (SpanAt text) (Cursor.ofOffset text (m + k)) f n)
    (hopens : OpeningAt (Cursor.ofOffset text m) f.opener k) (hopener : f.opener.Encloses)
    (hstart : f.start = m) (hbrace : (Cursor.ofOffset text (m + k + n)).rest = ')' :: rest)
    (hclose : f.close count (m + k + n + 1) = .ok (node, count')) :
    SpanAt text (Cursor.ofOffset text m) node (k + n + 1) := by
  have hreads : ItemAt (Cursor.ofOffset text m) node (k + n + 1) := by
    have hitems : BodyAt ItemAt ((Cursor.ofOffset text m).advance k) f n := by
      rw [Cursor.advance_ofOffset]
      exact hbody.imp SpanAt.reads
    have hbrace' := hbrace
    rw [Nat.add_assoc, ← Cursor.advance_ofOffset] at hbrace'
    exact hitems.itemAt hopens hopener hbrace' hclose
  obtain ⟨after, index, label, hlabel, rfl⟩ := exists_close_encloses hopener hclose
  have hstop : m + k + n + 1 = m + (k + n + 1) := by omega
  refine spanAt_of_whole hlabel hreads hstart hstop fun child hchild => ?_
  obtain rfl := List.mem_singleton.mp hchild
  exact hbody.isFaithful_of_closing count after hbrace

/-- A closing makes the innermost frame an item of the frame around it. -/
theorem FramesAt.close {count count' : Nat} {node : Node} {rest : Text}
    (h : FramesAt text f (frame :: outer) i) (hbrace : (Cursor.ofOffset text i).rest = ')' :: rest)
    (hclose : f.close count (i + 1) = .ok (node, count')) :
    FramesAt text (frame.push node) outer (i + 1) := by
  cases h with
  | @nested _ _ _ m k n houter hopener _ hstart hopens hbody =>
    have hpushed := houter.push (hbody.spanAt hopens hopener hstart hbrace hclose)
    have hoffset : m + (k + n + 1) = m + k + n + 1 := by omega
    rwa [hoffset] at hpushed

/-- A quantifier takes the place of the last item. -/
theorem FramesAt.quantify {item : Node} {items : List Node} {bounds : Bounds}
    {mode : QuantifierMode} (h : FramesAt text f outer i) (count : Nat)
    (hitems : f.items = item :: items) (hitem : item.label.isRepeatable = true)
    (hquantifier : item.label.isQuantifier = false)
    (hread : QuantifierAt (Cursor.ofOffset text i) bounds mode n) (hlength : i + n ≤ text.length)
    (hopener : g.opener = f.opener) (hstart : g.start = f.start) (hmodes : g.modes = f.modes)
    (hfinished : g.finished = f.finished)
    (hitems' : g.items =
      .build count (.quantifier bounds mode) item.start (i + n) [item] :: items) :
    FramesAt text g outer (i + n) := by
  refine h.go_on hopener hstart hmodes ?_
  intro b l hoffset hbody
  obtain ⟨j, m, rfl, hlast, hbefore⟩ := hbody.exists_last hitems
  rw [Cursor.advance_ofOffset] at hlast
  obtain rfl : i = b + j + m := by omega
  have hquantified := hread.spanAt count hlast hitem hquantifier hlength
  rw [← Cursor.advance_ofOffset] at hquantified
  have hbody' := hbefore.push hquantified
  rw [← Nat.add_assoc] at hbody'
  exact hbody'.of_items hfinished hitems'

/-- Every token has its place in the text. -/
theorem IsPlaced.token (h : s.IsPlaced text) (hnormal : s.IsNormal) (htoken : Token s s') :
    s'.IsPlaced text := by
  have hframes := h.frames
  cases htoken with
  | @leaf label width n hpos hlength hlabel hread hle hspan =>
    refine ⟨h.place_advance n, h.length_advance hlength, hframes.push ?_⟩
    rw [h.place] at hread hspan
    exact hread.spanAt hlabel hle hspan
  | @opening opener groups n names hpos hlength hopener hopens =>
    rw [h.place] at hopens
    exact ⟨h.place_advance n, h.length_advance hlength,
      .nested hframes hopener rfl rfl hopens .opened⟩
  | @bar rest hrest =>
    have hlength : 1 ≤ s.cur.rest.length := by simp [hrest]
    refine ⟨h.place_advance 1, h.length_advance hlength, hframes.go_on rfl rfl rfl ?_⟩
    intro b n hoffset hbody
    apply hbody.nextBranch
    rw [Cursor.advance_ofOffset, hoffset, ← h.place]
    exact hrest
  | @close frame outer node count rest hrest houter hclose =>
    have hlength : 1 ≤ s.cur.rest.length := by simp [hrest]
    rw [houter] at hframes
    have hbrace : (Cursor.ofOffset text s.cur.pos).rest = ')' :: rest := by
      rw [← h.place]
      exact hrest
    exact ⟨h.place_advance 1, h.length_advance hlength, hframes.close hbrace hclose⟩
  | @quantify bounds mode item items n hpos hlength hfirst hitems hitem hread =>
    have hbound := h.length_advance hlength
    -- what is repeated is no quantifier, since none was marked
    have hquantifier : item.label.isQuantifier = false := by
      by_contra hne
      have hmarked := hnormal.frame.quantified item items hitems (Bool.eq_true_of_not_eq_false hne)
      rw [hfirst] at hmarked
      exact Bool.noConfusion hmarked
    rw [h.place] at hread
    exact ⟨h.place_advance n, hbound,
      hframes.quantify s.count hitems hitem hquantifier hread hbound rfl rfl rfl rfl rfl⟩

/-- A state on the way to a self-contained tree, when nothing is skipped or
    quoted on the way. -/
theorem IsPlaced.of_runsTo {root : Node} (hruns : (ParserState.initial text).RunsTo s)
    (hlast : s.RunsTo last) (hfinish : last.finish = .ok root)
    (hroot : ∀ n ∈ root.preorder, n.label.isSelfContained = true)
    (hplain : ∀ t, (ParserState.initial text).RunsTo t →
      ¬ ['(', '?', '#'] <+: t.cur.rest ∧ ¬ ['\\', 'Q'] <+: t.cur.rest) : s.IsPlaced text := by
  induction hruns with
  | refl => exact .initial text
  | @tail t u hruns hnext ih =>
    have hplaced := ih (hlast.head hnext)
    have hnormal : last.IsNormal := .of_runsTo ((hruns.tail hnext).trans hlast)
    have hself := isSelfContained_of_finish hlast hnormal hfinish hroot
    obtain ⟨hcomment, hquoted⟩ := hplain t hruns
    have hmodes := hplaced.frames.modes
    exact hplaced.token (.of_runsTo hruns) (hnext.token hmodes hcomment hquoted hself)

/-- The frame of a whole pattern closes into its body. -/
theorem exists_close_root (h : f.opener = .root) {count stop count' : Nat} {node : Node}
    (hclose : f.close count stop = .ok (node, count')) :
    ∃ after, node = (closeBody after (closeBranches count stop f.branches).1).1 := by
  rw [f.close_of_root h] at hclose
  exact ⟨_, (congrArg Prod.fst (Except.ok.inj hclose)).symm⟩

end ParserState

/-! ## Section 4: Trees without places -/

namespace Shape

mutual

/-- The node with a given tree of labels, at no place in particular. -/
def built : Shape → Node
  | node label children => .build 0 label 0 0 (builtAll children)

/-- The nodes with some given trees of labels. -/
def builtAll : List Shape → List Node
  | [] => []
  | s :: rest => s.built :: builtAll rest

end

theorem builtAll_eq_map (shapes : List Shape) : builtAll shapes = shapes.map built := by
  induction shapes with
  | nil => rfl
  | cons s rest ih => rw [builtAll, ih, List.map_cons]

end Shape

theorem Label.reach_unnumbered (label : Label) (children : List Reach) :
    label.unnumbered.reach children = label.reach children := by
  cases label <;> rfl

namespace Node

mutual

/-- What a node is apart from its place in a pattern: its kind, values and
    reach, and the same of all below, without the numbers of nodes and
    groups and without the spans. -/
def unplaced : Node → Node
  | node label mark children =>
    .node label.unnumbered ⟨0, 0, 0, mark.reach⟩ (unplacedAll children)

/-- What some nodes are apart from their places. -/
def unplacedAll : List Node → List Node
  | [] => []
  | n :: rest => n.unplaced :: unplacedAll rest

end

theorem unplacedAll_eq_map (nodes : List Node) : unplacedAll nodes = nodes.map unplaced := by
  induction nodes with
  | nil => rfl
  | cons n rest ih => rw [unplacedAll, ih, List.map_cons]

/-- The labels of a normal tree determine what its nodes are. -/
theorem IsNormal.unplaced_eq {n : Node} (h : n.IsNormal) : n.unplaced = n.outline.built := by
  induction n using Node.induction with
  | node label mark children ih =>
    have hchildren : children.map unplaced = (children.map outline).map Shape.built := by
      rw [List.map_map]
      refine List.map_congr_left fun child hchild => ?_
      exact ih child hchild (h.of_mem (child_mem_preorder hchild))
    have hreach : mark.reach =
        label.unnumbered.reach ((children.map unplaced).map Node.reach) := by
      rw [Label.reach_unnumbered, List.map_map]
      have hself := (h _ (mem_preorder_self _)).2
      refine hself.trans (congrArg label.reach (List.map_congr_left ?_))
      rintro ⟨label, mark, children⟩ -
      rfl
    have houtline : (node label mark children).outline =
        .node label.unnumbered (children.map outline) := by
      rw [outline, shape, shapes_eq_map, Shape.unnumbered_node, List.map_map]
      rfl
    rw [houtline, Shape.built, Shape.builtAll_eq_map, ← hchildren, unplaced, unplacedAll_eq_map,
      build, ← hreach]

theorem outline_unplaced (n : Node) : n.unplaced.outline = n.outline := by
  induction n using Node.induction with
  | node label mark children ih =>
    have hlabel : label.unnumbered.unnumbered = label.unnumbered := by
      cases label with
      | group kind => cases kind <;> rfl
      | _ => rfl
    rw [unplaced, unplacedAll_eq_map, outline_eq, outline_eq (node label mark children)]
    show Shape.node label.unnumbered.unnumbered ((children.map unplaced).map outline) =
      .node label.unnumbered (children.map outline)
    rw [hlabel, List.map_map]
    exact congrArg _ (List.map_congr_left ih)

/-- What normal trees are apart from their places is told by their labels. -/
theorem unplaced_eq_iff {n m : Node} (hn : n.IsNormal) (hm : m.IsNormal) :
    n.unplaced = m.unplaced ↔ n.outline = m.outline := by
  constructor
  · intro h
    rw [← outline_unplaced, h, outline_unplaced]
  · intro h
    rw [hn.unplaced_eq, hm.unplaced_eq, h]

/-- The names in a tree are among those of the whole, in the same order. -/
theorem names_sublist {n m : Node} (hm : m ∈ n.preorder) : m.names.Sublist n.names :=
  ((preorder_sublist hm).filterMap _).filterMap _

end Node

/-! ## Section 5: Patterns -/

namespace Pattern

variable {text : Text} {p : Pattern} {n : Node}

/-- A pattern whose parts can be read alone: no node sets a flag, refers to
    another one or asks for a condition, and no part of the text is skipped
    as a comment or quoted. -/
structure IsSelfContained (p : Pattern) : Prop where
  labels : ∀ n ∈ p.root.preorder, n.label.isSelfContained = true
  plain : ∀ s, (ParserState.initial p.text).RunsTo s →
    ¬ ['(', '?', '#'] <+: s.cur.rest ∧ ¬ ['\\', 'Q'] <+: s.cur.rest

/-- Nothing is skipped or quoted without a hash and without a `Q`. -/
theorem isSelfContained_of_text (hlabels : ∀ n ∈ p.root.preorder, n.label.isSelfContained = true)
    (hhash : '#' ∉ p.text) (hquote : 'Q' ∉ p.text) : p.IsSelfContained := by
  refine ⟨hlabels, fun s hruns => ?_⟩
  have hrest := (ParserState.RemembersTargets.of_runsTo hruns).place
  have hsub : s.cur.rest ⊆ p.text := hrest ▸ List.drop_subset _ _
  exact ⟨fun hcomment => hhash (hsub (hcomment.subset (by decide))),
    fun hquoted => hquote (hsub (hquoted.subset (by decide)))⟩

/-- The span of a node shows all of the node.  The span of the root does so
    too when only a later branch than the first one is empty: it reaches up
    to the end of the text. -/
inductive Shows (p : Pattern) : Node → Prop where
  | span {n : Node} (hshown : n.isShown p.text = true) : Shows p n
  | root (hempty : p.root.hasEmptyBranch = true) (hfirst : p.root.startsEmpty = false) :
      Shows p p.root

/-- At the end of a self-contained text the outermost frame closes into the
    root of its pattern. -/
theorem exists_body (h : parse text = .ok p) (hself : p.IsSelfContained) :
    ∃ f count after, ParserState.BodyAt (ParserState.SpanAt text) (Cursor.ofOffset text 0) f
        text.length ∧
      p.root = (closeBody after
        (closeBranches count text.length f.branches).1).1 := by
  obtain ⟨last, root, hruns, hend, hfinish, rfl⟩ := parse_eq_ok_iff.mp h
  have hplaced : last.IsPlaced text := .of_runsTo hruns .refl hfinish hself.labels hself.plain
  obtain ⟨houter, ⟨count, hclose⟩, -⟩ := ParserState.finish_eq_ok_iff.mp hfinish
  have hlength : last.cur.pos = text.length := by
    rw [hplaced.place, Cursor.ofOffset] at hend
    have hover := List.drop_eq_nil_iff.mp hend
    have hpos := hplaced.length
    omega
  have hframes := hplaced.frames
  rw [houter, hlength] at hframes
  rw [hlength] at hclose
  cases hframes with
  | root hopener _ hbody =>
    obtain ⟨after, hroot⟩ := ParserState.exists_close_root hopener hclose
    exact ⟨_, _, after, hbody, hroot⟩

theorem names_nodup_of_parse (h : parse text = .ok p) (hn : n ∈ p.root.preorder) :
    n.names.Nodup := by
  obtain ⟨-, hnamed, hdistinct⟩ := groupKinds_of_parse h
  have hroot : p.root.names = p.groupNames.map Prod.fst := by
    rw [← hnamed, Node.names, List.map_filterMap]
    rfl
  exact (Node.names_sublist hn).nodup (hroot ▸ hdistinct)

/-- Every node of a self-contained pattern is faithful, but perhaps the root
    over an empty branch. -/
theorem isFaithful_of_parse (h : parse text = .ok p) (hself : p.IsSelfContained)
    (hn : n ∈ p.root.preorder) :
    n.IsFaithful text ∨ n = p.root ∧ p.root.hasEmptyBranch = true := by
  obtain ⟨f, count, after, hbody, hroot⟩ := exists_body h hself
  have hlength : 0 + text.length ≤ text.length := Nat.le_of_eq (Nat.zero_add _)
  rw [hroot] at hn ⊢
  rcases ParserState.mem_preorder_closeBody hn with ⟨rfl, hmany⟩ | ⟨node, hnode, hn⟩
  · by_cases hempty : [] ∈ f.branches
    · have hjoined := ParserState.finished_of_many hmany
      exact .inr ⟨rfl, (ParserState.hasEmptyBranch_iff count _ after hbody.isItem).mpr
        ⟨hjoined, hempty⟩⟩
    · exact .inl (hbody.isFaithful_of_some count _ after hlength hempty)
  · exact .inl (hbody.isFaithful_branches count _ hlength node hnode n hn)

/-- The root over an empty branch is read back when its first branch is not
    empty: then its span is the whole text. -/
theorem isRead_root_iff (h : parse text = .ok p) (hself : p.IsSelfContained)
    (hempty : p.root.hasEmptyBranch = true) :
    p.root.IsRead text ↔ p.root.startsEmpty = false := by
  obtain ⟨f, count, after, hbody, hroot⟩ := exists_body h hself
  have hnames := names_nodup_of_parse h (Node.mem_preorder_self p.root)
  have hwhole : p.root.textIn text = text → p.root.IsRead text := by
    intro htext
    exact ⟨p, htext.symm ▸ h, rfl⟩
  rw [hroot] at hempty hnames hwhole ⊢
  rw [ParserState.names_closeBody] at hnames
  obtain ⟨hmany, hempty⟩ := (ParserState.hasEmptyBranch_iff count _ after hbody.isItem).mp hempty
  rw [← Bool.not_eq_true, ParserState.startsEmpty_iff count _ after hmany hbody.isItem]
  refine ⟨fun hread hfirst => ?_, fun hfirst => ?_⟩
  · exact hbody.not_isRead_of_end count after hnames hmany hfirst hread
  · exact hwhole (hbody.textIn_of_end count after hmany hempty hfirst)

/-- The text of a node of a self-contained pattern is parsed, and as that
    node up to its place, exactly when its span shows the node. -/
theorem exists_parse_textOf_iff (h : parse text = .ok p) (hself : p.IsSelfContained)
    (hn : n ∈ p.root.preorder) :
    (∃ q, parse (p.textOf n) = .ok q ∧ q.root.unplaced = n.unplaced) ↔ p.Shows n := by
  have hnormal : n.IsNormal := (isNormal_of_parse h).of_mem hn
  have htext : p.text = text := by
    obtain ⟨_, _, _, _, _, rfl⟩ := parse_eq_ok_iff.mp h
    rfl
  have hread : (∃ q, parse (p.textOf n) = .ok q ∧ q.root.unplaced = n.unplaced) ↔
      n.IsRead text := by
    rw [textOf, htext]
    refine exists_congr fun q => and_congr_right fun hq => ?_
    exact Node.unplaced_eq_iff (isNormal_of_parse hq) hnormal
  rw [hread]
  constructor
  · intro hread
    rcases isFaithful_of_parse h hself hn with hfaithful | ⟨rfl, hempty⟩
    · exact .span (htext ▸ (hfaithful (names_nodup_of_parse h hn)).mp hread)
    · exact .root hempty ((isRead_root_iff h hself hempty).mp hread)
  · rintro (hshown | ⟨hempty, hfirst⟩)
    · rw [htext] at hshown
      rcases isFaithful_of_parse h hself hn with hfaithful | ⟨rfl, hempty⟩
      · exact (hfaithful (names_nodup_of_parse h hn)).mpr hshown
      · simp [Node.isShown, hempty] at hshown
    · exact (isRead_root_iff h hself hempty).mpr hfirst

/-- The branches of a group are parsed alone as an alternation. -/
theorem exists_parse_textOf_of_branches :
    ∃ p, parse "(a|\\x41b)+".toList = .ok p ∧ p.IsSelfContained ∧
      ∃ n ∈ p.root.preorder, p.textOf n = "a|\\x41b".toList ∧
        ∃ q, parse (p.textOf n) = .ok q ∧ q.root.unplaced = n.unplaced := by
  have hcheck : (parse "(a|\\x41b)+".toList).toOption.any (fun p =>
      p.text == "(a|\\x41b)+".toList && p.root.preorder.all (·.label.isSelfContained) &&
        p.root.preorder.any fun n =>
          n.isShown p.text && p.textOf n == "a|\\x41b".toList) = true := by decide +kernel
  obtain ⟨p, hp, hcheck⟩ := exists_of_check hcheck
  simp only [Bool.and_eq_true, beq_iff_eq, List.all_eq_true, List.any_eq_true] at hcheck
  obtain ⟨⟨htext, hlabels⟩, n, hn, hshown, hsource⟩ := hcheck
  have hself : p.IsSelfContained :=
    isSelfContained_of_text hlabels (htext ▸ by decide) (htext ▸ by decide)
  exact ⟨p, hp, hself, n, hn, hsource, (exists_parse_textOf_iff hp hself hn).mpr (.span hshown)⟩

/-- The span of a character code leaves out its digits, and that of an
    alternation with an empty branch takes in the end of its group; neither
    text is parsed. -/
theorem not_parse_textOf_of_code :
    ∃ p, parse "(\\x41|)".toList = .ok p ∧ p.IsSelfContained ∧
      (∃ n ∈ p.root.preorder, p.textOf n = "\\x".toList ∧ ∃ e, parse (p.textOf n) = .error e) ∧
      ∃ n ∈ p.root.preorder, p.textOf n = "\\x41|)".toList ∧
        ∃ e, parse (p.textOf n) = .error e := by
  have hcheck : (parse "(\\x41|)".toList).toOption.any (fun p =>
      p.text == "(\\x41|)".toList && p.root.preorder.all (·.label.isSelfContained) &&
        (p.root.preorder.any fun n => p.textOf n == "\\x".toList) &&
          p.root.preorder.any fun n => p.textOf n == "\\x41|)".toList) = true := by decide +kernel
  -- neither of the two texts is a pattern
  have hfails : ∀ text ∈ ["\\x".toList, "\\x41|)".toList], ∃ e, parse text = .error e := by
    have hnone : ∀ text ∈ ["\\x".toList, "\\x41|)".toList],
        (parse text).toOption.isNone = true := by decide +kernel
    intro text htext
    have hnone := hnone text htext
    cases hparse : parse text with
    | error e => exact ⟨e, rfl⟩
    | ok p => simp [hparse, Except.toOption] at hnone
  obtain ⟨p, hp, hcheck⟩ := exists_of_check hcheck
  simp only [Bool.and_eq_true, beq_iff_eq, List.all_eq_true, List.any_eq_true] at hcheck
  obtain ⟨⟨⟨htext, hlabels⟩, n, hn, hcode⟩, m, hm, hbranches⟩ := hcheck
  have hself : p.IsSelfContained :=
    isSelfContained_of_text hlabels (htext ▸ by decide) (htext ▸ by decide)
  refine ⟨p, hp, hself, ⟨n, hn, hcode, ?_⟩, m, hm, hbranches, ?_⟩
  · exact hfails _ (hcode ▸ List.mem_cons_self)
  · exact hfails _ (hbranches ▸ List.mem_cons_of_mem _ List.mem_cons_self)

end Pattern

end RegexInsight
