import Mathlib
import RegexInsight.Proofs.Form.FullMatch
import RegexInsight.Proofs.Pattern.Members
import RegexInsight.Proofs.Pattern.RoundTrip

/-! # Patterns in parts

    A pattern text can be cut into parts that the parser reads one after
    the other, each as one node.  Such a text is parsed as these nodes side
    by side.  Anchors are parts, and so are the pieces of a form. -/

namespace RegexInsight

namespace ParserState

variable {s t u : ParserState} {shapes shapes' : List Shape} {label : Label} {rest tail : Text}

/-! ## Section 1: Appending nodes -/

/-- Steps append nodes with the given trees to the current branch; no group,
    name or reference comes with them. -/
structure ReadsShapes (s s' : ParserState) (shapes : List Shape) (tail : Text) : Prop extends
    Consumes s s' [] tail where
  finished : s'.frame.finished = s.frame.finished
  items : ∃ nodes : List Node, s'.frame.items = nodes.reverse ++ s.frame.items ∧
    nodes.map Node.shape = shapes

theorem readsShapes_nil (hrest : s.cur.rest = tail) : ReadsShapes s s [] tail where
  toConsumes := (readsItems_nil hrest).toConsumes
  finished := rfl
  items := ⟨[], rfl, rfl⟩

theorem ReadsShapes.append (h : ReadsShapes s t shapes rest) (h' : ReadsShapes t u shapes' tail) :
    ReadsShapes s u (shapes ++ shapes') tail where
  toConsumes := h.toConsumes.append h'.toConsumes
  finished := h'.finished.trans h.finished
  items := by
    obtain ⟨nodes, hitems, hshapes⟩ := h.items
    obtain ⟨nodes', hitems', hshapes'⟩ := h'.items
    refine ⟨nodes ++ nodes', ?_, ?_⟩
    · rw [hitems', hitems, List.reverse_append, List.append_assoc]
    · rw [List.map_append, hshapes, hshapes']

/-- A leaf that refers to nothing is one node, and can be quantified. -/
theorem ReadsLeaf.exists_readsShapes (h : s.ReadsLeaf label s.references tail) :
    ∃ s', s.ReadsShapes s' [.node label []] tail ∧ s'.frame.quantified = false := by
  obtain ⟨start, stop, cur, hcur, hnext⟩ := h
  refine ⟨(s.addLeaf ⟨label, start, stop⟩).moveTo cur, ?_, rfl⟩
  exact {
    runs := .single hnext
    rest := hcur
    outer := rfl
    opener := rfl
    modes := rfl
    groups := rfl
    names := (List.append_nil _).symm
    references := fun _ hr => .inl hr
    finished := rfl
    items := ⟨[.build s.count label start stop []], rfl, congrArg (fun shape => [shape])
      (Node.shape_build _ _ _ _ _)⟩ }

/-- A quantifier is put over the leaf before it. -/
theorem ReadsShapes.exists_quantified {bounds : Bounds}
    (h : ReadsShapes s t [.node label []] (bounds.text ++ tail)) (hmodes : s.frame.modes = .none)
    (hbounds : bounds.IsPrintable) (hlabel : label.isRepeatable = true)
    (hfirst : t.frame.quantified = false) (htail : IsSeparate tail) :
    ∃ s', s.ReadsShapes s' [.node (.quantifier bounds .greedy) [.node label []]] tail := by
  obtain ⟨nodes, hitems, hshapes⟩ := h.items
  obtain ⟨n, rfl, hn⟩ := List.map_eq_singleton_iff.mp hshapes
  have hrepeatable : n.label.isRepeatable = true := by
    rw [Node.label_of_shape hn]
    exact hlabel
  have hlast : t.frame.items = n :: s.frame.items := hitems
  -- a greedy quantifier has an empty suffix
  have hrest : t.cur.rest = bounds.text ++ (QuantifierMode.greedy.suffix ++ tail) := h.rest
  obtain ⟨cur, hcur, hnext⟩ :=
    next_quantifier hbounds (h.modes.trans hmodes) hrest htail hfirst hlast hrepeatable
  refine ⟨t.putQuantifier bounds .greedy n s.frame.items cur, ?_⟩
  exact {
    runs := h.runs.tail hnext
    rest := hcur
    outer := h.outer
    opener := h.opener
    modes := h.modes
    groups := h.groups
    names := h.names
    references := h.references
    finished := h.finished
    items := by
      refine ⟨[.build t.count (.quantifier bounds .greedy) n.start cur.pos [n]], rfl, ?_⟩
      rw [List.map_singleton, Node.shape_build, List.map_singleton, hn] }

end ParserState

/-! ## Section 2: Parts -/

/-- Wherever no flag is in force, the text is read as one node with the
    given tree, unless a suffix of a quantifier follows. -/
structure IsPart (text : Text) (shape : Shape) : Prop where
  separate : IsSeparate text
  reads : ∀ (s : ParserState) (tail : Text), s.frame.modes = .none → s.cur.rest = text ++ tail →
    IsSeparate tail → ∃ s', s.ReadsShapes s' [shape] tail

theorem isPart_of_leaf {text : Text} {label : Label} (hseparate : IsSeparate text)
    (h : ∀ (s : ParserState) (tail : Text), s.frame.modes = .none → s.cur.rest = text ++ tail →
      s.ReadsLeaf label s.references tail) : IsPart text (.node label []) where
  separate := hseparate
  reads := by
    intro s tail hmodes hrest _
    obtain ⟨s', hs', -⟩ := (h s tail hmodes hrest).exists_readsShapes
    exact ⟨s', hs'⟩

theorem isPart_lineStart : IsPart ['^'] (.node (.anchor .lineStart) []) :=
  isPart_of_leaf (isSeparate_cons (by decide) (by decide))
    fun _ _ => ParserState.readsLeaf_lineStart

theorem isPart_lineEnd : IsPart ['$'] (.node (.anchor .lineEnd) []) :=
  isPart_of_leaf (isSeparate_cons (by decide) (by decide))
    fun _ _ => ParserState.readsLeaf_lineEnd

/-- What begins anew is no suffix of a quantifier. -/
theorem BeginsAnew.isSeparate {text : Text} (h : BeginsAnew text) : IsSeparate text := by
  intro c hc
  constructor
  · rintro rfl
    exact absurd (h '?' hc (by decide)) (by decide)
  · rintro rfl
    exact absurd (h '+' hc (by decide)) (by decide)

namespace FormClass

variable {a : FormClass}

theorem isSeparate_text (a : FormClass) : IsSeparate a.text := by
  have h := (a.beginsAnew_text []).isSeparate
  rwa [List.append_nil] at h

theorem isPart_text (h : a.IsPlain) : IsPart a.text (.node a.label []) :=
  isPart_of_leaf a.isSeparate_text fun _ _ => ParserState.readsLeaf_class h

/-- The bracket classes of pieces have no marks in them. -/
theorem IsSimple.isPlain (h : a.IsSimple) : a.IsPlain := by
  cases h with
  | char c => trivial
  | shorthand s => trivial
  | bracket hentry =>
    simp only [brackets, List.mem_cons, List.not_mem_nil, or_false] at hentry
    rcases hentry with rfl | rfl | rfl | rfl <;>
      simp [IsPlain, lower, upper, letter, anything, BracketItem.IsPlain, Bracket.marks]

theorem isRepeatable_label (a : FormClass) : a.label.isRepeatable = true := by
  cases a <;> rfl

end FormClass

namespace Piece

/-- The tree that a piece is read as. -/
def shape (p : Piece) : Shape :=
  if p.count = .once then .node p.accepted.label []
  else .node (.quantifier p.count .greedy) [.node p.accepted.label []]

theorem isPart_text {p : Piece} (h : p.accepted.IsPlain) (hcount : p.count.IsPrintable) :
    IsPart p.text p.shape := by
  unfold text shape
  split
  next =>
    rw [List.append_nil]
    exact FormClass.isPart_text h
  next =>
    have hbrace : IsSeparate p.count.text := isSeparate_cons (by decide) (by decide)
    refine ⟨isSeparate_append p.accepted.isSeparate_text hbrace, ?_⟩
    intro s tail hmodes hrest htail
    rw [List.append_assoc] at hrest
    obtain ⟨t, ht, hfirst⟩ := (ParserState.readsLeaf_class h hmodes hrest).exists_readsShapes
    exact ht.exists_quantified hmodes hcount p.accepted.isRepeatable_label hfirst htail

end Piece

/-! ## Section 3: Whole patterns -/

theorem isSeparate_parts {parts : List (Text × Shape)} (h : ∀ part ∈ parts, IsPart part.1 part.2) :
    IsSeparate (parts.flatMap Prod.fst) := by
  induction parts with
  | nil => exact isSeparate_nil
  | cons part rest ih =>
    obtain ⟨hpart, hrest⟩ := List.forall_mem_cons.mp h
    rw [List.flatMap_cons]
    exact isSeparate_append hpart.separate (ih hrest)

/-- Parts are read one after the other. -/
theorem ParserState.exists_readsShapes {s : ParserState} {parts : List (Text × Shape)}
    (h : ∀ part ∈ parts, IsPart part.1 part.2) (hmodes : s.frame.modes = .none)
    (hrest : s.cur.rest = parts.flatMap Prod.fst) :
    ∃ s', s.ReadsShapes s' (parts.map Prod.snd) [] := by
  induction parts generalizing s with
  | nil => exact ⟨s, readsShapes_nil hrest⟩
  | cons part rest ih =>
    obtain ⟨hpart, hparts⟩ := List.forall_mem_cons.mp h
    obtain ⟨t, ht⟩ := hpart.reads s (rest.flatMap Prod.fst) hmodes hrest (isSeparate_parts hparts)
    obtain ⟨u, hu⟩ := ih hparts (ht.modes.trans hmodes) ht.rest
    exact ⟨u, ht.append hu⟩

/-- A pattern that steps read to its end is parsed as the nodes they left,
    side by side. -/
theorem ParserState.ReadsShapes.exists_parse {pattern : Text} {shapes : List Shape}
    {last : ParserState} (h : (ParserState.initial pattern).ReadsShapes last shapes []) :
    ∃ p, Pattern.parse pattern = .ok p ∧ p.root.shape = Shape.branch shapes := by
  obtain ⟨nodes, hitems, hshapes⟩ := h.items
  have hnodes : last.frame.items = nodes.reverse := hitems.trans (List.append_nil _)
  have hfinished : last.frame.finished = [] := h.finished
  have hopener : last.frame.opener = .root := h.opener
  have hbodies : last.frame.bodies = [Shape.branch shapes] := by
    rw [Frame.bodies, Frame.branches, hfinished, hnodes, List.reverse_reverse, ← hshapes]
    rfl
  obtain ⟨root, count, hclose, hroot⟩ := last.frame.exists_close last.count last.cur.pos
    fun condition hcondition => by simp [hopener] at hcondition
  -- nothing was referred to
  have hcheck : last.checkReferences = .ok () := by
    refine ParserState.checkReferences_eq_ok_iff.mpr fun r hr => ?_
    rcases h.references r hr with hold | ⟨target, htarget, -⟩
    · exact absurd hold List.not_mem_nil
    · exact absurd htarget List.not_mem_nil
  have hfinish : last.finish = .ok root :=
    ParserState.finish_eq_ok_iff.mpr ⟨h.outer, ⟨count, hclose⟩, hcheck⟩
  refine ⟨_, Pattern.parse_eq_ok_iff.mpr ⟨last, root, h.runs, h.rest, hfinish, rfl⟩, ?_⟩
  show root.shape = _
  rw [hroot, hopener, hbodies]
  rfl

/-- A text in parts is parsed as the nodes of its parts side by side. -/
theorem Pattern.parse_parts {parts : List (Text × Shape)}
    (h : ∀ part ∈ parts, IsPart part.1 part.2) :
    ∃ p, Pattern.parse (parts.flatMap Prod.fst) = .ok p ∧
      p.root.shape = Shape.branch (parts.map Prod.snd) := by
  obtain ⟨last, hlast⟩ := ParserState.exists_readsShapes
    (s := .initial (parts.flatMap Prod.fst)) h rfl rfl
  exact hlast.exists_parse

end RegexInsight
