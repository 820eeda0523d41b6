import Mathlib
import RegexInsight.Proofs.Pattern.NumeralFailure
import RegexInsight.Proofs.Pattern.Reading

/-! # Parsing what was printed

    A printed expression is parsed as the tree that it stands for.  The
    parser reads the items of a branch one after the other, so the claim
    about an expression is a claim about its items: from any state without
    flags, steps lead behind the text of an item and leave one node with
    the tree of the item on the current branch.  Branches, groups and the
    whole pattern are assembled from that. -/

namespace RegexInsight

/-! ## Section 1: Printed text is separate -/

theorem isSeparate_nil : IsSeparate [] := by
  intro c hc
  simp at hc

theorem isSeparate_append {a b : Text} (ha : IsSeparate a) (hb : IsSeparate b) :
    IsSeparate (a ++ b) := by
  cases a with
  | nil => exact hb
  | cons c rest => exact ha

theorem isSeparate_cons {c : Char} {rest : Text} (hquestion : c ≠ '?') (hplus : c ≠ '+') :
    IsSeparate (c :: rest) := by
  intro d hd
  obtain rfl := Option.some.inj hd
  exact ⟨hquestion, hplus⟩

theorem isSeparate_escapeChar (c : Char) : IsSeparate (Literal.escapeChar c) := by
  have hbackslash : ∀ rest, IsSeparate ('\\' :: rest) := fun rest =>
    isSeparate_cons (by decide) (by decide)
  unfold Literal.escapeChar
  split
  next => exact hbackslash _
  next hspecial =>
    split
    next => exact hbackslash _
    split
    next => exact hbackslash _
    split
    next => exact hbackslash _
    next =>
      -- the marks of a quantifier are special
      refine isSeparate_cons ?_ ?_
      · rintro rfl
        exact hspecial (by decide)
      · rintro rfl
        exact hspecial (by decide)

namespace Expression

mutual

theorem isSeparate_text (e : Expression) : IsSeparate e.text := by
  cases e with
  | empty => exact isSeparate_nil
  | literal char => exact isSeparate_escapeChar char
  | shorthand kind => exact isSeparate_cons (by decide) (by decide)
  | dot => exact isSeparate_cons (by decide) (by decide)
  | anchor kind => cases kind <;> exact isSeparate_cons (by decide) (by decide)
  | backreference target => cases target <;> exact isSeparate_cons (by decide) (by decide)
  | recursion => exact isSeparate_cons (by decide) (by decide)
  | group form body =>
    have hopening : IsSeparate form.opening := by
      rcases form with _ | ⟨name, spelling⟩ | _ | _
      · exact isSeparate_cons (by decide) (by decide)
      · cases spelling <;> exact isSeparate_cons (by decide) (by decide)
      · exact isSeparate_cons (by decide) (by decide)
      · exact isSeparate_cons (by decide) (by decide)
    rw [text, List.append_assoc]
    refine isSeparate_append hopening (isSeparate_append (isSeparate_text body) ?_)
    exact isSeparate_cons (by decide) (by decide)
  | lookaround direction negated body =>
    rw [text, List.append_assoc]
    cases direction <;> cases negated <;> exact isSeparate_cons (by decide) (by decide)
  | quantified bounds mode operand =>
    rw [text]
    exact isSeparate_append (isSeparate_text operand) (isSeparate_cons (by decide) (by decide))
  | concat items =>
    rw [text]
    exact isSeparate_flatten items
  | alternation branches =>
    rw [text]
    exact isSeparate_intercalate branches
  | conditional condition branches =>
    rw [text]
    exact isSeparate_cons (by decide) (by decide)

theorem isSeparate_flatten (es : List Expression) : IsSeparate (texts es).flatten := by
  cases es with
  | nil => exact isSeparate_nil
  | cons e rest =>
    rw [texts, List.flatten_cons]
    exact isSeparate_append (isSeparate_text e) (isSeparate_flatten rest)

theorem isSeparate_intercalate (es : List Expression) :
    IsSeparate (['|'].intercalate (texts es)) := by
  cases es with
  | nil => exact isSeparate_nil
  | cons e rest =>
    cases rest with
    | nil =>
      rw [texts, texts, List.intercalate_singleton]
      exact isSeparate_text e
    | cons f rest =>
      rw [texts, texts, List.intercalate_cons_cons, List.append_assoc]
      exact isSeparate_append (isSeparate_text e) (isSeparate_cons (by decide) (by decide))

end

end Expression

/-! ## Section 2: Closing -/

namespace Shape

/-- What the items of one branch close into. -/
def branch : List Shape → Shape
  | [] => .node .empty []
  | [only] => only
  | shapes => .node .concat shapes

/-- What several branches close into. -/
def body : List Shape → Shape
  | [only] => only
  | shapes => .node .alternation shapes

end Shape

/-- What a frame closes into over its branches. -/
def Opener.closed : Opener → List Shape → Shape
  | root, bodies => Shape.body bodies
  | group kind, bodies => .node (.group kind) [Shape.body bodies]
  | lookaround direction negated, bodies =>
    .node (.lookaround direction negated) [Shape.body bodies]
  | conditional condition, bodies => .node (.conditional condition) bodies

/-- The tree of a branch with the given items. -/
def branchShape (nodes : List Node) : Shape :=
  Shape.branch (nodes.map Node.shape)

theorem shape_closeBranch (count stop : Nat) (nodes : List Node) :
    (closeBranch count stop nodes).1.shape = branchShape nodes := by
  rcases nodes with _ | ⟨first, _ | ⟨second, rest⟩⟩
  · exact Node.shape_build _ _ _ _ _
  · rfl
  · exact Node.shape_build _ _ _ _ _

theorem shape_closeBranches (count stop : Nat) (branches : List (List Node)) :
    (closeBranches count stop branches).1.map Node.shape = branches.map branchShape := by
  induction branches generalizing count with
  | nil => rfl
  | cons nodes rest ih =>
    show (closeBranch count stop nodes).1.shape :: _ = _
    rw [shape_closeBranch, ih, List.map_cons]

theorem shape_closeBody (count : Nat) (bodies : List Node) :
    (closeBody count bodies).1.shape = Shape.body (bodies.map Node.shape) := by
  rcases bodies with _ | ⟨first, _ | ⟨second, rest⟩⟩
  · exact Node.shape_build _ _ _ _ _
  · rfl
  · exact Node.shape_build _ _ _ _ _

namespace Frame

/-- The trees of the branches of a frame. -/
def bodies (f : Frame) : List Shape :=
  f.branches.map branchShape

/-- A frame closes unless it is a conditional with too many branches. -/
theorem exists_close (f : Frame) (count stop : Nat)
    (h : ∀ condition, f.opener = .conditional condition → f.bodies.length ≤ 2) :
    ∃ node after, f.close count stop = .ok (node, after) ∧
      node.shape = f.opener.closed f.bodies := by
  have hbodies := shape_closeBranches count stop f.branches
  have hbody := shape_closeBody (closeBranches count stop f.branches).2
    (closeBranches count stop f.branches).1
  rw [hbodies] at hbody
  unfold close
  cases hopener : f.opener with
  | root =>
    exact ⟨_, _, rfl, hbody⟩
  | group kind =>
    refine ⟨_, _, rfl, ?_⟩
    rw [Node.shape_build]
    exact congrArg (fun body => Shape.node _ [body]) hbody
  | lookaround direction negated =>
    refine ⟨_, _, rfl, ?_⟩
    rw [Node.shape_build]
    exact congrArg (fun body => Shape.node _ [body]) hbody
  | conditional condition =>
    -- closing keeps the number of the branches
    have hlength : (closeBranches count stop f.branches).1.length ≤ 2 := by
      have hle := h condition hopener
      rw [bodies, ← hbodies, List.length_map] at hle
      exact hle
    refine ⟨_, _, if_neg (Nat.not_lt.mpr hlength), ?_⟩
    rw [Node.shape_build, hbodies]
    rfl

end Frame

theorem Node.label_of_shape {n : Node} {label : Label} {children : List Shape}
    (h : n.shape = .node label children) : n.label = label := by
  obtain ⟨own, mark, below⟩ := n
  exact (Shape.node.inj h).1

namespace Expression

variable {e : Expression}

/-- What a quantifier can stand over has a node that can be repeated. -/
theorem exists_shape (h : e.isOperand = true) (opened : Nat) :
    ∃ label children, e.shape opened = .node label children ∧ label.isRepeatable = true := by
  cases e <;> first | exact ⟨_, _, rfl, rfl⟩ | exact Bool.noConfusion h

/-- The items of a branch close into the tree of the branch. -/
theorem IsPrintable.branch_shapes (h : e.IsPrintable) (opened : Nat) :
    Shape.branch (shapes opened e.items) = e.shape opened := by
  cases h with
  | @concat items hlength _ _ =>
    rcases items with _ | ⟨first, _ | ⟨second, rest⟩⟩
    · exact absurd hlength (by decide)
    · exact absurd hlength (by simp)
    · rfl
  | _ => rfl

/-- The branches of an expression close into its tree. -/
theorem IsPrintable.body_shapes (h : e.IsPrintable) (opened : Nat) :
    Shape.body (shapes opened e.branches) = e.shape opened := by
  cases h with
  | @alternation branches hlength _ _ =>
    rcases branches with _ | ⟨first, _ | ⟨second, rest⟩⟩
    · exact absurd hlength (by decide)
    · exact absurd hlength (by simp)
    · rfl
  | _ => rfl

end Expression

namespace ParserState

variable {s t u : ParserState} {es fs : List Expression} {tail rest : Text}

/-! ## Section 3: What reading leaves -/

/-- Steps read expressions up to `tail`: the groups, names and references
    are those of the expressions, and the open frames stay. -/
structure Consumes (s s' : ParserState) (es : List Expression) (tail : Text) : Prop where
  runs : s.RunsTo s'
  rest : s'.cur.rest = tail
  outer : s'.outer = s.outer
  opener : s'.frame.opener = s.frame.opener
  modes : s'.frame.modes = s.frame.modes
  groups : s'.groups = s.groups + Expression.groupCounts es
  names : s'.names = s.names ++ Expression.groupNamesAll s.groups es
  references : ∀ r ∈ s'.references,
    r ∈ s.references ∨ ∃ target ∈ Expression.targetsAll es, r.target = target.text

/-- The expressions were appended to the current branch. -/
structure ReadsItems (s s' : ParserState) (es : List Expression) (tail : Text) : Prop extends
    Consumes s s' es tail where
  finished : s'.frame.finished = s.frame.finished
  items : ∃ nodes : List Node, s'.frame.items = nodes.reverse ++ s.frame.items ∧
    nodes.map Node.shape = Expression.shapes s.groups es

/-- The expressions became the branches after those finished before. -/
structure ReadsBranches (s s' : ParserState) (es : List Expression) (tail : Text) : Prop extends
    Consumes s s' es tail where
  bodies : s'.frame.bodies =
    s.frame.finished.reverse.map branchShape ++ Expression.shapes s.groups es

/-- The names after reading on. -/
theorem Consumes.names_append (h : Consumes s t es tail) (fs : List Expression) :
    t.names ++ Expression.groupNamesAll t.groups fs =
      s.names ++ Expression.groupNamesAll s.groups (es ++ fs) := by
  rw [h.names, h.groups, Expression.groupNamesAll_append, List.append_assoc]

theorem Consumes.append (h : Consumes s t es rest) (h' : Consumes t u fs tail) :
    Consumes s u (es ++ fs) tail where
  runs := h.runs.trans h'.runs
  rest := h'.rest
  outer := h'.outer.trans h.outer
  opener := h'.opener.trans h.opener
  modes := h'.modes.trans h.modes
  groups := by rw [h'.groups, h.groups, Expression.groupCounts_append, Nat.add_assoc]
  names := by rw [h'.names, h.names_append]
  references := by
    intro r hr
    rw [Expression.targetsAll_append]
    rcases h'.references r hr with hold | ⟨target, htarget, heq⟩
    · rcases h.references r hold with hold | ⟨target, htarget, heq⟩
      · exact .inl hold
      · exact .inr ⟨target, List.mem_append_left _ htarget, heq⟩
    · exact .inr ⟨target, List.mem_append_right _ htarget, heq⟩

/-- The items of a branch leave what the branch leaves. -/
theorem Consumes.of_items {e : Expression} (h : Consumes s t e.items tail) :
    Consumes s t [e] tail where
  runs := h.runs
  rest := h.rest
  outer := h.outer
  opener := h.opener
  modes := h.modes
  groups := by
    rw [h.groups, Expression.groupCounts_items, Expression.groupCounts, Expression.groupCounts,
      Nat.add_zero]
  names := by
    rw [h.names, Expression.groupNamesAll_items, Expression.groupNamesAll,
      Expression.groupNamesAll, List.append_nil]
  references := by
    intro r hr
    rw [Expression.targetsAll, Expression.targetsAll, List.append_nil, ← Expression.targetsAll_items]
    exact h.references r hr

theorem ReadsItems.append (h : ReadsItems s t es rest) (h' : ReadsItems t u fs tail) :
    ReadsItems s u (es ++ fs) tail where
  toConsumes := h.toConsumes.append h'.toConsumes
  finished := h'.finished.trans h.finished
  items := by
    obtain ⟨nodes, hitems, hshapes⟩ := h.items
    obtain ⟨nodes', hitems', hshapes'⟩ := h'.items
    refine ⟨nodes ++ nodes', ?_, ?_⟩
    · rw [hitems', hitems, List.reverse_append, List.append_assoc]
    · rw [List.map_append, hshapes, hshapes', h.groups, Expression.shapes_append]

theorem readsItems_nil (hrest : s.cur.rest = tail) : ReadsItems s s [] tail where
  runs := .refl
  rest := hrest
  outer := rfl
  opener := rfl
  modes := rfl
  groups := rfl
  names := (List.append_nil _).symm
  references := fun _ hr => .inl hr
  finished := rfl
  items := ⟨[], rfl, rfl⟩

/-! ## Section 4: Items in a row -/

end ParserState

namespace Expression

/-- Wherever no flag is in force and its names are not taken, the text of
    the expression is read as one item, which can be repeated if the
    expression can. -/
def IsReadable (e : Expression) : Prop :=
  ∀ (s : ParserState) (tail : Text), s.frame.modes = .none → s.cur.rest = e.text ++ tail →
    IsSeparate tail → ((s.names ++ e.groupNames s.groups).map Prod.fst).Nodup →
    ∃ s', s.ReadsItems s' [e] tail ∧ (e.isOperand = true → s'.frame.quantified = false)

end Expression

namespace ParserState

variable {s t u : ParserState} {es fs : List Expression} {tail rest : Text}

theorem exists_readsItems (hread : ∀ e ∈ es, e.IsReadable) (hmodes : s.frame.modes = .none)
    (hrest : s.cur.rest = (Expression.texts es).flatten ++ tail) (htail : IsSeparate tail)
    (hnames : ((s.names ++ Expression.groupNamesAll s.groups es).map Prod.fst).Nodup) :
    ∃ s', s.ReadsItems s' es tail := by
  induction es generalizing s with
  | nil => exact ⟨s, readsItems_nil hrest⟩
  | cons e es ih =>
    rw [Expression.texts, List.flatten_cons, List.append_assoc] at hrest
    obtain ⟨he, hes⟩ := List.forall_mem_cons.mp hread
    -- names that are new to the whole row are new to its first item
    have hfirst : ((s.names ++ e.groupNames s.groups).map Prod.fst).Nodup := by
      rw [Expression.groupNamesAll, ← List.append_assoc, List.map_append] at hnames
      exact (List.nodup_append.mp hnames).1
    obtain ⟨t, ht, -⟩ := he s _ hmodes hrest
      (isSeparate_append (Expression.isSeparate_flatten es) htail) hfirst
    have hsecond : ((t.names ++ Expression.groupNamesAll t.groups es).map Prod.fst).Nodup := by
      rw [ht.names_append]
      exact hnames
    obtain ⟨u, hu⟩ := ih hes (ht.modes.trans hmodes) ht.rest hsecond
    exact ⟨u, ht.append hu⟩

/-! ## Section 5: Branches -/

/-- The items of a branch, read on an empty branch, are its body. -/
theorem ReadsItems.bodies {e : Expression} (h : ReadsItems s t e.items tail)
    (he : e.IsPrintable) (hitems : s.frame.items = []) :
    t.frame.bodies = s.frame.finished.reverse.map branchShape ++ [e.shape s.groups] := by
  obtain ⟨nodes, hnodes, hshapes⟩ := h.items
  rw [hitems, List.append_nil] at hnodes
  have hbranches : t.frame.branches = s.frame.finished.reverse ++ [nodes] := by
    rw [Frame.branches, hnodes, h.finished, List.reverse_reverse, List.reverse_cons]
  rw [Frame.bodies, hbranches, List.map_append, List.map_singleton, branchShape, hshapes,
    he.branch_shapes]

/-- A bar begins the next branch. -/
theorem exists_readsBar (hmodes : s.frame.modes = .none) (hrest : s.cur.rest = '|' :: tail) :
    ∃ s', Consumes s s' [] tail ∧ s'.frame = s.frame.nextBranch := by
  have htail : (s.cur.advance 1).rest = tail := by
    rw [Cursor.advance_rest, hrest]
    rfl
  exact ⟨_, {
    runs := .single (next_bar hmodes hrest)
    rest := htail
    outer := rfl
    opener := rfl
    modes := rfl
    groups := rfl
    names := (List.append_nil _).symm
    references := fun _ hr => .inl hr }, rfl⟩

theorem exists_readsBranches (hne : es ≠ []) (hread : ∀ e ∈ es, ∀ item ∈ e.items, item.IsReadable)
    (hprintable : ∀ e ∈ es, e.IsPrintable) (hmodes : s.frame.modes = .none)
    (hitems : s.frame.items = [])
    (hrest : s.cur.rest = ['|'].intercalate (Expression.texts es) ++ tail)
    (htail : IsSeparate tail)
    (hnames : ((s.names ++ Expression.groupNamesAll s.groups es).map Prod.fst).Nodup) :
    ∃ s', s.ReadsBranches s' es tail := by
  induction es generalizing s with
  | nil => exact absurd rfl hne
  | cons e es ih =>
    obtain ⟨he, hes⟩ := List.forall_mem_cons.mp hread
    obtain ⟨hprint, hprints⟩ := List.forall_mem_cons.mp hprintable
    -- the first branch takes its names from the front
    have hfirst : ((s.names ++ Expression.groupNamesAll s.groups e.items).map Prod.fst).Nodup := by
      rw [Expression.groupNamesAll, ← List.append_assoc, List.map_append] at hnames
      rw [Expression.groupNamesAll_items]
      exact (List.nodup_append.mp hnames).1
    cases es with
    | nil =>
      rw [Expression.texts, Expression.texts, List.intercalate_singleton,
        ← Expression.flatten_texts_items] at hrest
      obtain ⟨t, ht⟩ := exists_readsItems he hmodes hrest htail hfirst
      exact ⟨t, ht.toConsumes.of_items, ht.bodies hprint hitems⟩
    | cons f es =>
      rw [Expression.texts, Expression.texts, List.intercalate_cons_cons, ← Expression.texts,
        ← Expression.flatten_texts_items, List.append_assoc, List.append_assoc] at hrest
      obtain ⟨t, ht⟩ := exists_readsItems he hmodes hrest
        (isSeparate_cons (by decide) (by decide)) hfirst
      obtain ⟨u, hbar, hframe⟩ := exists_readsBar (ht.modes.trans hmodes) ht.rest
      -- the bar reads no expression, so it appends the empty list
      have hbefore := ht.toConsumes.of_items.append hbar
      have hsecond :
          ((u.names ++ Expression.groupNamesAll u.groups (f :: es)).map Prod.fst).Nodup := by
        rw [hbefore.names_append]
        exact hnames
      obtain ⟨v, hv⟩ := ih (List.cons_ne_nil f es) hes hprints (hbefore.modes.trans hmodes)
        (by rw [hframe]; rfl) hbar.rest hsecond
      refine ⟨v, hbefore.append hv.toConsumes, ?_⟩
      have hfinished : u.frame.finished.reverse.map branchShape = t.frame.bodies := by
        rw [hframe]
        rfl
      rw [hv.bodies, hfinished, ht.bodies hprint hitems, hbefore.groups, List.append_assoc]
      rfl

/-! ## Section 6: Single items -/

/-- A leaf is an item without groups and names. -/
theorem ReadsLeaf.exists_readsItems {e : Expression} {label : Label}
    {references : List Reference} (h : s.ReadsLeaf label references tail)
    (hshape : e.shape s.groups = .node label []) (hgroups : e.groupCount = 0)
    (hnames : e.groupNames s.groups = [])
    (hreferences : ∀ r ∈ references,
      r ∈ s.references ∨ ∃ target ∈ e.targets, r.target = target.text) :
    ∃ s', s.ReadsItems s' [e] tail ∧ s'.frame.quantified = false := by
  obtain ⟨start, stop, cur, hcur, hnext⟩ := h
  refine ⟨({ s with references := references }.addLeaf ⟨label, start, stop⟩).moveTo cur, ?_, rfl⟩
  exact {
    runs := .single hnext
    rest := hcur
    outer := rfl
    opener := rfl
    modes := rfl
    groups := by
      rw [Expression.groupCounts, Expression.groupCounts, hgroups]
      rfl
    names := by
      rw [Expression.groupNamesAll, Expression.groupNamesAll, hnames, List.append_nil,
        List.append_nil]
      rfl
    references := by
      rw [Expression.targetsAll, Expression.targetsAll, List.append_nil]
      exact hreferences
    finished := rfl
    items := by
      refine ⟨[.build s.count label start stop []], rfl, ?_⟩
      rw [List.map_singleton, Node.shape_build, Expression.shapes, Expression.shapes, hshape]
      rfl }

/-- A quantifier is put over an item that was read before it. -/
theorem ReadsItems.exists_quantified {e : Expression} {bounds : Bounds} {mode : QuantifierMode}
    (h : ReadsItems s t [e] (bounds.text ++ (mode.suffix ++ tail)))
    (hmodes : s.frame.modes = .none) (hbounds : bounds.IsPrintable)
    (hoperand : e.isOperand = true) (hfirst : t.frame.quantified = false)
    (htail : IsSeparate tail) :
    ∃ s', s.ReadsItems s' [.quantified bounds mode e] tail := by
  obtain ⟨nodes, hitems, hshapes⟩ := h.items
  obtain ⟨n, rfl⟩ : ∃ n, nodes = [n] := by
    have hlength := congrArg List.length hshapes
    rw [List.length_map, Expression.length_shapes, List.length_singleton] at hlength
    exact List.length_eq_one_iff.mp hlength
  -- the node keeps the label of the operand, and that can be repeated
  have hn : n.shape = e.shape s.groups := (List.cons.inj hshapes).1
  have hlabel : n.label.isRepeatable = true := by
    obtain ⟨label, children, heq, hrepeatable⟩ := Expression.exists_shape hoperand s.groups
    rw [Node.label_of_shape (hn.trans heq)]
    exact hrepeatable
  have hlast : t.frame.items = n :: s.frame.items := hitems
  obtain ⟨cur, hcur, hnext⟩ := next_quantifier hbounds (h.modes.trans hmodes) h.rest htail hfirst
    hlast hlabel
  refine ⟨t.putQuantifier bounds mode n s.frame.items cur, ?_⟩
  exact {
    runs := h.runs.tail hnext
    rest := hcur
    outer := h.outer
    opener := h.opener
    modes := h.modes
    groups := h.groups
    names := h.names
    references := h.references
    finished := h.finished
    items := by
      refine ⟨[.build t.count (.quantifier bounds mode) n.start cur.pos [n]], rfl, ?_⟩
      rw [List.map_singleton, Node.shape_build, List.map_singleton, hn]
      rfl }

/-- Branches between an opening and a parenthesis are one item. -/
theorem Opens.exists_readsItems {e : Expression} {opener : Opener}
    (h : s.Opens opener t (['|'].intercalate (Expression.texts es) ++ ')' :: tail))
    (hframe : t.frame = s.frame) (houter : t.outer = s.outer) (hne : es ≠ [])
    (hread : ∀ e ∈ es, ∀ item ∈ e.items, item.IsReadable)
    (hprintable : ∀ e ∈ es, e.IsPrintable)
    (hshort : ∀ condition, opener = .conditional condition → es.length ≤ 2)
    (hshape : opener.closed (Expression.shapes t.groups es) = e.shape s.groups)
    (hgroups : t.groups + Expression.groupCounts es = s.groups + e.groupCount)
    (hnames : t.names ++ Expression.groupNamesAll t.groups es = s.names ++ e.groupNames s.groups)
    (hdistinct : ((s.names ++ e.groupNames s.groups).map Prod.fst).Nodup)
    (hreferences : ∀ r ∈ t.references,
      r ∈ s.references ∨ ∃ target ∈ e.targets, r.target = target.text)
    (htargets : Expression.targetsAll es ⊆ e.targets) :
    ∃ s', s.ReadsItems s' [e] tail ∧ s'.frame.quantified = false := by
  obtain ⟨start, cur, hcur, hnext⟩ := h
  obtain ⟨u, hu⟩ := exists_readsBranches (s := t.enter opener start .none cur) hne hread hprintable
    rfl rfl hcur (isSeparate_cons (by decide) (by decide)) (hnames ▸ hdistinct)
  have hbodies : u.frame.bodies = Expression.shapes t.groups es := hu.bodies
  have hopener : u.frame.opener = opener := hu.opener
  obtain ⟨node, count, hclose, hnode⟩ := u.frame.exists_close u.count (u.cur.advance 1).pos
    fun condition hcondition => by
      rw [hbodies, Expression.length_shapes]
      exact hshort condition (hopener.symm.trans hcondition)
  rw [hopener, hbodies, hshape] at hnode
  -- the frame around is the one that the opening left
  have hout : u.outer = s.frame :: s.outer := by
    rw [hu.outer]
    show t.frame :: t.outer = _
    rw [hframe, houter]
  refine ⟨{ u with
    cur := u.cur.advance 1, frame := s.frame.push node, outer := s.outer, count := count }, ?_, rfl⟩
  exact {
    runs := .head hnext (hu.runs.tail (next_closing hu.rest hout hclose))
    rest := by
      show (u.cur.advance 1).rest = tail
      rw [Cursor.advance_rest, hu.rest]
      rfl
    outer := rfl
    opener := rfl
    modes := rfl
    groups := hu.groups.trans hgroups
    names := by
      rw [Expression.groupNamesAll, Expression.groupNamesAll, List.append_nil]
      exact hu.names.trans hnames
    references := by
      intro r hr
      rw [Expression.targetsAll, Expression.targetsAll, List.append_nil]
      rcases hu.references r hr with hold | ⟨target, htarget, heq⟩
      · exact hreferences r hold
      · exact .inr ⟨target, htargets htarget, heq⟩
    finished := rfl
    items := ⟨[node], rfl, congrArg (fun shape => [shape]) hnode⟩ }

end ParserState

namespace Expression

/-! ## Section 7: Everything printed is readable -/

variable {e body : Expression}

theorem isReadable_of_leaf {label : Label}
    (hleaf : ∀ (s : ParserState) (tail : Text), s.frame.modes = .none →
      s.cur.rest = e.text ++ tail → ∃ references, s.ReadsLeaf label references tail ∧
        ∀ r ∈ references, r ∈ s.references ∨ ∃ target ∈ e.targets, r.target = target.text)
    (hshape : ∀ opened, e.shape opened = .node label []) (hgroups : e.groupCount = 0)
    (hnames : ∀ opened, e.groupNames opened = []) : e.IsReadable := by
  intro s tail hmodes hrest _ _
  obtain ⟨references, hreads, hreferences⟩ := hleaf s tail hmodes hrest
  obtain ⟨s', hs', hfirst⟩ :=
    hreads.exists_readsItems (hshape s.groups) hgroups (hnames s.groups) hreferences
  exact ⟨s', hs', fun _ => hfirst⟩

theorem isReadable_literal (char : Char) : (literal char).IsReadable :=
  isReadable_of_leaf
    (fun _ _ hmodes hrest => ⟨_, ParserState.readsLeaf_literal hmodes hrest, fun _ hr => .inl hr⟩)
    (fun _ => rfl) rfl fun _ => rfl

theorem isReadable_shorthand (kind : Shorthand) : (shorthand kind).IsReadable :=
  isReadable_of_leaf
    (fun _ _ hmodes hrest => ⟨_, ParserState.readsLeaf_shorthand hmodes hrest, fun _ hr => .inl hr⟩)
    (fun _ => rfl) rfl fun _ => rfl

theorem isReadable_dot : dot.IsReadable :=
  isReadable_of_leaf
    (fun _ _ hmodes hrest => ⟨_, ParserState.readsLeaf_dot hmodes hrest, fun _ hr => .inl hr⟩)
    (fun _ => rfl) rfl fun _ => rfl

theorem isReadable_anchor (kind : Anchor) : (anchor kind).IsReadable :=
  isReadable_of_leaf
    (fun _ _ hmodes hrest => ⟨_, ParserState.readsLeaf_anchor hmodes hrest, fun _ hr => .inl hr⟩)
    (fun _ => rfl) rfl fun _ => rfl

theorem isReadable_recursion : recursion.IsReadable :=
  isReadable_of_leaf
    (fun _ _ hmodes hrest => ⟨_, ParserState.readsLeaf_recursion hmodes hrest, fun _ hr => .inl hr⟩)
    (fun _ => rfl) rfl fun _ => rfl

theorem isReadable_backreference {target : Target} (htarget : target.IsPrintable) :
    (backreference target).IsReadable := by
  refine isReadable_of_leaf (fun s tail hmodes hrest => ?_) (fun _ => rfl) rfl fun _ => rfl
  refine ⟨_, ParserState.readsLeaf_backreference htarget hmodes hrest, fun r hr => ?_⟩
  rcases List.mem_cons.mp hr with rfl | hold
  · exact .inr ⟨target, List.mem_singleton_self target, rfl⟩
  · exact .inl hold

theorem isReadable_quantified {bounds : Bounds} {mode : QuantifierMode} {operand : Expression}
    (hbounds : bounds.IsPrintable) (hoperand : operand.isOperand = true)
    (hread : operand.IsReadable) : (quantified bounds mode operand).IsReadable := by
  intro s tail hmodes hrest htail hnames
  rw [text, List.append_assoc, List.append_assoc] at hrest
  obtain ⟨t, ht, hfirst⟩ := hread s _ hmodes hrest (isSeparate_cons (by decide) (by decide)) hnames
  obtain ⟨s', hs'⟩ := ht.exists_quantified hmodes hbounds hoperand (hfirst hoperand) htail
  exact ⟨s', hs', fun hagain => absurd hagain Bool.false_ne_true⟩

theorem IsPrintable.branches_ne_nil (h : e.IsPrintable) : e.branches ≠ [] := by
  cases h with
  | alternation hlength _ _ =>
    intro hnil
    rw [branches] at hnil
    rw [hnil] at hlength
    exact absurd hlength (by decide)
  | _ => exact List.cons_ne_nil _ _

theorem IsPrintable.of_mem_branches (h : e.IsPrintable) : ∀ branch ∈ e.branches, branch.IsPrintable := by
  by_cases hbranch : e.isBranch = true
  · intro branch hmem
    rw [branches_of_isBranch hbranch] at hmem
    obtain rfl := List.mem_singleton.mp hmem
    exact h
  · cases h with
    | alternation _ _ hprintable => exact hprintable
    | _ => exact absurd rfl hbranch

theorem isReadable_group {form : GroupForm} (hform : form.IsPrintable) (hbody : body.IsPrintable)
    (hread : ∀ branch ∈ body.branches, ∀ item ∈ branch.items, item.IsReadable) :
    (group form body).IsReadable := by
  intro s tail hmodes hrest _ hnames
  rw [text, ← intercalate_texts_branches, List.append_assoc, List.append_assoc] at hrest
  have hfresh : ((s.names ++ form.names (s.groups + 1)).map Prod.fst).Nodup := by
    rw [groupNames, ← List.append_assoc, List.map_append] at hnames
    exact (List.nodup_append.mp hnames).1
  -- nothing printed begins with a question mark, so `(` opens a plain group
  have hquestion : '?' ∉ (['|'].intercalate (texts body.branches) ++ ')' :: tail).head? := by
    intro hmem
    exact (isSeparate_append (isSeparate_intercalate _)
      (isSeparate_cons (by decide) (by decide)) '?' hmem).1 rfl
  have hopens := ParserState.opens_group hform hmodes hfresh hrest hquestion
  have hshape : (Opener.group (form.kind (s.groups + 1))).closed
      (shapes (s.groups + form.count) body.branches) = (group form body).shape s.groups := by
    show Shape.node _ [Shape.body _] = _
    rw [hbody.body_shapes, shape]
  have hgroups : s.groups + form.count + groupCounts body.branches =
      s.groups + (group form body).groupCount := by
    rw [groupCounts_branches, groupCount, Nat.add_assoc]
  have hnamed : s.names ++ form.names (s.groups + 1) ++
      groupNamesAll (s.groups + form.count) body.branches =
        s.names ++ (group form body).groupNames s.groups := by
    rw [groupNamesAll_branches, groupNames, List.append_assoc]
  have hshort : ∀ condition, Opener.group (form.kind (s.groups + 1)) = .conditional condition →
      body.branches.length ≤ 2 := by simp
  have htargets : targetsAll body.branches ⊆ (group form body).targets := by
    rw [targetsAll_branches, targets]
    exact List.Subset.refl _
  obtain ⟨s', hs', hfirst⟩ := hopens.exists_readsItems rfl rfl hbody.branches_ne_nil hread
    hbody.of_mem_branches hshort hshape hgroups hnamed hnames (fun _ hr => .inl hr) htargets
  exact ⟨s', hs', fun _ => hfirst⟩

theorem isReadable_lookaround {direction : LookDirection} {negated : Bool}
    (hbody : body.IsPrintable)
    (hread : ∀ branch ∈ body.branches, ∀ item ∈ branch.items, item.IsReadable) :
    (lookaround direction negated body).IsReadable := by
  intro s tail hmodes hrest _ hnames
  rw [text, ← intercalate_texts_branches, List.append_assoc, List.append_assoc] at hrest
  have hopens := ParserState.opens_lookaround hmodes hrest
  have hshape : (Opener.lookaround direction negated).closed (shapes s.groups body.branches) =
      (lookaround direction negated body).shape s.groups := by
    show Shape.node _ [Shape.body _] = _
    rw [hbody.body_shapes, shape]
  have hgroups : s.groups + groupCounts body.branches =
      s.groups + (lookaround direction negated body).groupCount := by
    rw [groupCounts_branches, groupCount]
  have hnamed : s.names ++ groupNamesAll s.groups body.branches =
      s.names ++ (lookaround direction negated body).groupNames s.groups := by
    rw [groupNamesAll_branches, groupNames]
  have hshort : ∀ condition, Opener.lookaround direction negated = .conditional condition →
      body.branches.length ≤ 2 := by simp
  have htargets : targetsAll body.branches ⊆ (lookaround direction negated body).targets := by
    rw [targetsAll_branches, targets]
    exact List.Subset.refl _
  obtain ⟨s', hs', hfirst⟩ := hopens.exists_readsItems rfl rfl hbody.branches_ne_nil hread
    hbody.of_mem_branches hshort hshape hgroups hnamed hnames (fun _ hr => .inl hr) htargets
  exact ⟨s', hs', fun _ => hfirst⟩

theorem isReadable_conditional {condition : Target} {branches : List Expression}
    (hcondition : condition.IsPrintable) (hsome : branches ≠ []) (hlength : branches.length ≤ 2)
    (hprintable : ∀ branch ∈ branches, branch.IsPrintable)
    (hread : ∀ branch ∈ branches, ∀ item ∈ branch.items, item.IsReadable) :
    (conditional condition branches).IsReadable := by
  intro s tail hmodes hrest _ hnames
  rw [text, List.append_assoc, List.append_assoc, List.append_assoc] at hrest
  have hopens := ParserState.opens_conditional hcondition hmodes hrest
  have hreferences : ∀ r ∈ (s.refer condition.text s.cur.pos).references, r ∈ s.references ∨
      ∃ target ∈ (conditional condition branches).targets, r.target = target.text := by
    intro r hr
    rcases List.mem_cons.mp hr with rfl | hold
    · exact .inr ⟨condition, List.mem_cons_self, rfl⟩
    · exact .inl hold
  have htargets : targetsAll branches ⊆ (conditional condition branches).targets :=
    List.subset_cons_self _ _
  obtain ⟨s', hs', hfirst⟩ := hopens.exists_readsItems rfl rfl hsome hread hprintable
    (fun _ _ => hlength) rfl rfl rfl hnames hreferences htargets
  exact ⟨s', hs', fun _ => hfirst⟩

theorem forall_items_of_isItem (h : e.isItem = true) (hread : e.IsReadable) :
    ∀ branch ∈ e.branches, ∀ item ∈ branch.items, item.IsReadable := by
  rw [branches_of_isBranch (isBranch_of_isItem h)]
  intro branch hbranch
  obtain rfl := List.mem_singleton.mp hbranch
  rw [items_of_isItem h]
  intro item hitem
  obtain rfl := List.mem_singleton.mp hitem
  exact hread

theorem mem_branches_of_isBranch (h : e.isBranch = true) : e ∈ e.branches := by
  rw [branches_of_isBranch h]
  exact List.mem_singleton_self e

theorem mem_items_of_isItem (h : e.isItem = true) : e ∈ e.items := by
  rw [items_of_isItem h]
  exact List.mem_singleton_self e

/-- The items of a printable expression are readable. -/
theorem IsPrintable.isReadable (h : e.IsPrintable) :
    ∀ branch ∈ e.branches, ∀ item ∈ branch.items, item.IsReadable := by
  induction h with
  | empty =>
    intro branch hbranch item hitem
    obtain rfl := List.mem_singleton.mp hbranch
    exact absurd hitem List.not_mem_nil
  | literal => exact forall_items_of_isItem rfl (isReadable_literal _)
  | shorthand => exact forall_items_of_isItem rfl (isReadable_shorthand _)
  | dot => exact forall_items_of_isItem rfl isReadable_dot
  | anchor => exact forall_items_of_isItem rfl (isReadable_anchor _)
  | backreference htarget => exact forall_items_of_isItem rfl (isReadable_backreference htarget)
  | recursion => exact forall_items_of_isItem rfl isReadable_recursion
  | group hform hbody ih => exact forall_items_of_isItem rfl (isReadable_group hform hbody ih)
  | lookaround hbody ih => exact forall_items_of_isItem rfl (isReadable_lookaround hbody ih)
  | @quantified bounds mode operand hbounds hoperand _ ih =>
    have hitem := isItem_of_isOperand hoperand
    have hread : operand.IsReadable := ih operand (mem_branches_of_isBranch (isBranch_of_isItem hitem))
      operand (mem_items_of_isItem hitem)
    exact forall_items_of_isItem rfl (isReadable_quantified hbounds hoperand hread)
  | concat _ hitems _ ih =>
    intro branch hbranch item hmem
    obtain rfl := List.mem_singleton.mp hbranch
    -- the items of a concatenation are items of their own
    have hitem := hitems item hmem
    exact ih item hmem item (mem_branches_of_isBranch (isBranch_of_isItem hitem)) item
      (mem_items_of_isItem hitem)
  | alternation _ hbranches _ ih =>
    intro branch hbranch
    exact ih branch hbranch branch (mem_branches_of_isBranch (hbranches branch hbranch))
  | conditional hcondition hsome hlength hbranches hprintable ih =>
    refine forall_items_of_isItem rfl
      (isReadable_conditional hcondition hsome hlength hprintable ?_)
    intro branch hbranch
    exact ih branch hbranch branch (mem_branches_of_isBranch (hbranches branch hbranch))

end Expression

/-! ## Section 8: The tree of an expression is read as the expression -/

theorem Target.ofText_text {target : Target} (h : target.IsPrintable) :
    ofText target.text = target := by
  cases target with
  | number index =>
    rw [ofText, text, if_pos (Numeral.isDigitText_toDigits index), Numeral.value_toDigits]
  | name word =>
    rw [ofText, text, isDigitText_of_isGroupName h, if_neg Bool.false_ne_true]

theorem GroupForm.ofKind_kind (form : GroupForm) (index : Nat) :
    ofKind (form.kind index) = form := by
  cases form <;> rfl

namespace Expression

theorem expressions_shapes {es : List Expression}
    (h : ∀ e ∈ es, ∀ opened, (e.shape opened).expression = e) (opened : Nat) :
    Shape.expressions (shapes opened es) = es := by
  induction es generalizing opened with
  | nil => rfl
  | cons e rest ih =>
    obtain ⟨he, hrest⟩ := List.forall_mem_cons.mp h
    rw [shapes, Shape.expressions, he, ih hrest]

theorem IsPrintable.expression_shape {e : Expression} (h : e.IsPrintable) (opened : Nat) :
    (e.shape opened).expression = e := by
  induction h generalizing opened with
  | empty => rfl
  | @literal char => exact congrArg Expression.literal (Char.ofNat_toNat char)
  | @shorthand kind => cases kind <;> rfl
  | dot => rfl
  | anchor => rfl
  | backreference htarget => exact congrArg Expression.backreference (Target.ofText_text htarget)
  | recursion => rfl
  | @group form body _ _ ih =>
    have hform := form.ofKind_kind (opened + 1)
    rw [shape, Shape.expression, Shape.expressions, Shape.expressions, ih, Label.expression, hform]
    rfl
  | lookaround _ ih =>
    rw [shape, Shape.expression, Shape.expressions, Shape.expressions, ih]
    rfl
  | quantified _ _ _ ih =>
    rw [shape, Shape.expression, Shape.expressions, Shape.expressions, ih]
    rfl
  | concat _ _ _ ih =>
    rw [shape, Shape.expression, expressions_shapes ih]
    rfl
  | alternation _ _ _ ih =>
    rw [shape, Shape.expression, expressions_shapes ih]
    rfl
  | conditional hcondition _ _ _ _ ih =>
    rw [shape, Shape.expression, expressions_shapes ih, Label.expression,
      Target.ofText_text hcondition]

end Expression

/-! ## Section 9: Patterns -/

namespace ParserState

variable {s : ParserState}

/-- A target that refers to a group is known once the pattern is read. -/
theorem isKnown_of_resolves {e : Expression} {target : Target} (h : e.Resolves target)
    (hprintable : target.IsPrintable) (hgroups : s.groups = e.groupCount)
    (hnames : s.names = e.groupNames 0) : s.IsKnown target.text := by
  cases target with
  | number index =>
    rw [IsKnown, Target.text, if_pos (Numeral.isDigitText_toDigits index), hgroups]
    exact ⟨index, Numeral.read_of_write hprintable, h⟩
  | name word =>
    obtain ⟨index, hmem⟩ := h
    rw [IsKnown, Target.text, isDigitText_of_isGroupName hprintable, if_neg Bool.false_ne_true,
      hnames]
    exact ⟨(word, index), hmem, rfl⟩

end ParserState

/-- Parsing undoes printing: a printed pattern is parsed as the tree that it
    stands for, with its groups numbered and named in the order in which
    they open, and that tree is read as the pattern itself. -/
theorem Expression.IsPattern.parse_text {e : Expression} (h : e.IsPattern) :
    ∃ p, Pattern.parse e.text = .ok p ∧ p.root.shape = e.shape 0 ∧
      p.root.shape.expression = e ∧ p.groupCount = e.groupCount ∧
      p.groupNames = e.groupNames 0 := by
  obtain ⟨hprintable, hdistinct, hresolved⟩ := h
  have hrest : (ParserState.initial e.text).cur.rest =
      ['|'].intercalate (texts e.branches) ++ [] := by
    rw [intercalate_texts_branches, List.append_nil]
    rfl
  have hnamed : (((ParserState.initial e.text).names ++
      groupNamesAll (ParserState.initial e.text).groups e.branches).map Prod.fst).Nodup := by
    rw [groupNamesAll_branches]
    exact hdistinct
  obtain ⟨last, hlast⟩ := ParserState.exists_readsBranches hprintable.branches_ne_nil
    hprintable.isReadable hprintable.of_mem_branches rfl rfl hrest isSeparate_nil hnamed
  have hbodies : last.frame.bodies = shapes 0 e.branches := hlast.bodies
  have hopener : last.frame.opener = .root := hlast.opener
  have hgroups : last.groups = e.groupCount := by
    rw [hlast.groups, groupCounts_branches]
    exact Nat.zero_add _
  have hnames : last.names = e.groupNames 0 := by
    rw [hlast.names, groupNamesAll_branches]
    rfl
  obtain ⟨root, count, hclose, hroot⟩ := last.frame.exists_close last.count last.cur.pos
    fun condition hcondition => by simp [hopener] at hcondition
  -- references were read before all groups were known
  have hcheck : last.checkReferences = .ok () := by
    refine ParserState.checkReferences_eq_ok_iff.mpr fun r hr => ?_
    rcases hlast.references r hr with hold | ⟨target, htarget, heq⟩
    · exact absurd hold List.not_mem_nil
    · rw [targetsAll_branches] at htarget
      rw [heq]
      exact ParserState.isKnown_of_resolves (hresolved target htarget)
        (hprintable.targets target htarget) hgroups hnames
  have hfinish : last.finish = .ok root :=
    ParserState.finish_eq_ok_iff.mpr ⟨hlast.outer, ⟨count, hclose⟩, hcheck⟩
  have hshape : root.shape = e.shape 0 := by
    rw [hroot, hopener, hbodies]
    exact hprintable.body_shapes 0
  have hparse : Pattern.parse e.text = .ok ⟨e.text, root, last.groups, last.names⟩ :=
    Pattern.parse_eq_ok_iff.mpr ⟨last, root, hlast.runs, hlast.rest, hfinish, rfl⟩
  refine ⟨_, hparse, hshape, ?_, hgroups, hnames⟩
  rw [hshape]
  exact hprintable.expression_shape 0

/-- A named group with a quantifier, an empty branch, a backreference and a
    conditional. -/
theorem Expression.parse_text_of_conditional :
    ∃ p, Pattern.parse "(?<x>a\x7b2,3\x7d?)(b|)\\k<x>(?(2)c|d)".toList = .ok p ∧
      p.root.shape.expression = concat
        [group (.named ['x'] .angle) (quantified ⟨2, some 3⟩ .lazy (literal 'a')),
        group .capturing (alternation [literal 'b', empty]),
        backreference (.name ['x']),
        conditional (.number 2) [literal 'c', literal 'd']] ∧
      p.groupCount = 2 ∧ p.groupNames = [(['x'], 1)] := by
  have hbounds : Bounds.IsPrintable ⟨2, some 3⟩ := by
    refine ⟨?_, rfl, ?_⟩
    · intro high hhigh
      obtain rfl := Option.some.inj hhigh
      decide
    · intro high hhigh
      obtain rfl := Option.some.inj hhigh
      rfl
  have hname : isGroupName ['x'] = true := by decide +kernel
  -- name and number are those of a group of the expression
  have hpattern : (concat
      [group (.named ['x'] .angle) (quantified ⟨2, some 3⟩ .lazy (literal 'a')),
      group .capturing (alternation [literal 'b', empty]),
      backreference (.name ['x']),
      conditional (.number 2) [literal 'c', literal 'd']]).IsPattern := by
    refine ⟨.concat (by decide) (by simp [isItem]) ?_, by decide, ?_⟩
    · simp only [List.forall_mem_cons, List.not_mem_nil, false_imp_iff, implies_true, and_true]
      refine ⟨.group hname (.quantified hbounds rfl .literal), .group trivial ?_,
        .backreference hname, ?_⟩
      · exact .alternation (by decide) (by simp [isBranch])
          (by simp [IsPrintable.literal, IsPrintable.empty])
      · exact .conditional rfl (by decide) (by decide) (by simp [isBranch])
          (by simp [IsPrintable.literal])
    · simp [targets, targetsAll, Resolves, groupCount, groupCounts, groupNames, groupNamesAll,
        GroupForm.names, GroupForm.count]
  obtain ⟨p, hp, -, hexpression, hcount, hnames⟩ := hpattern.parse_text
  exact ⟨p, hp, hexpression, hcount, hnames⟩

end RegexInsight
