import Mathlib
import RegexInsight.Proofs.Pattern.Cut
import RegexInsight.Proofs.Pattern.LiteralOrder
import RegexInsight.Proofs.Pattern.Parts

/-! # Literal text

    There are two ways to write a text as a pattern of nothing but its own
    characters: with a backslash before every mark, or as a quote between
    `\Q` and `\E`.  Either is read as a row of literals, one for each
    character, whatever stands beside it.

    A quote ends at the first `\E` behind its beginning.  So a text that does
    not hold this pair may be quoted, also when it ends in a backslash: the
    pair that this backslash makes with the closing one is not `\E`. -/

namespace RegexInsight

/-! ## Section 1: Rows of literals -/

/-- The tree of a literal that is read while no flag is in force. -/
def literalShape (c : Char) : Shape :=
  .node (Modes.none.literal c.toNat) []

/-- The labels in a row of leaves: nothing is written for an empty row, and
    several leaves stand below a concatenation. -/
def rowLabels : List Label → List Label
  | [] => [.empty]
  | [only] => [only]
  | labels => .concat :: labels

namespace Node

variable {n : Node} {label : Label}

theorem preorder_of_leaf (h : n.shape = .node label []) :
    n.preorder = [n] ∧ n.label = label := by
  obtain ⟨own, mark, children⟩ := n
  rw [shape, shapes_eq_map] at h
  obtain ⟨rfl, hchildren⟩ := Shape.node.inj h
  obtain rfl := List.map_eq_nil_iff.mp hchildren
  exact ⟨preorder_node _ _ _, rfl⟩

/-- Leaves in a row are visited one after the other. -/
theorem flatMap_preorder_of_leaves {nodes : List Node} {labels : List Label}
    (h : nodes.map shape = labels.map fun label => .node label []) :
    (nodes.flatMap preorder).map Node.label = labels := by
  induction labels generalizing nodes with
  | nil =>
    obtain rfl := List.map_eq_nil_iff.mp h
    rfl
  | cons label labels ih =>
    obtain ⟨first, rest, rfl, hfirst, hrest⟩ := List.map_eq_cons_iff.mp h
    obtain ⟨hpreorder, hlabel⟩ := preorder_of_leaf hfirst
    rw [List.flatMap_cons, hpreorder, List.map_append, ih hrest, List.map_singleton, hlabel]
    rfl

/-- What a row of leaves closes into. -/
theorem map_label_preorder_of_row {labels : List Label}
    (h : n.shape = Shape.branch (labels.map fun label => .node label [])) :
    n.preorder.map Node.label = rowLabels labels := by
  match labels with
  | [] =>
    obtain ⟨hpreorder, hlabel⟩ := preorder_of_leaf h
    rw [hpreorder, List.map_singleton, hlabel]
    rfl
  | [only] =>
    obtain ⟨hpreorder, hlabel⟩ := preorder_of_leaf h
    rw [hpreorder, List.map_singleton, hlabel]
    rfl
  | first :: second :: rest =>
    obtain ⟨own, mark, children⟩ := n
    rw [shape, shapes_eq_map] at h
    obtain ⟨rfl, hchildren⟩ := Shape.node.inj h
    have hleaves : children.map shape =
        (first :: second :: rest).map fun label => .node label [] := hchildren
    rw [preorder_node, List.map_cons, flatMap_preorder_of_leaves hleaves]
    rfl

end Node

/-- The labels in the row of a text spell the text. -/
theorem filterMap_rowLabels (text : Text) :
    (rowLabels (text.map fun c => Modes.none.literal c.toNat)).filterMap Label.literal? =
      text.map Char.toNat := by
  have hrow : ∀ text : Text, (text.map fun c => Modes.none.literal c.toNat).filterMap
      Label.literal? = text.map Char.toNat := by
    intro text
    rw [List.filterMap_map, ← List.filterMap_eq_map]
    rfl
  match text with
  | [] => rfl
  | [c] => exact hrow [c]
  | c :: d :: rest => exact hrow (c :: d :: rest)

theorem kind_of_mem_rowLabels {text : Text} (h : text ≠ []) {label : Label}
    (hmem : label ∈ rowLabels (text.map fun c => Modes.none.literal c.toNat)) :
    label.kind = .literal ∨ label.kind = .concat := by
  have hrow : label ∈ text.map (fun c => Modes.none.literal c.toNat) → label.kind = .literal := by
    intro hliteral
    obtain ⟨c, -, rfl⟩ := List.mem_map.mp hliteral
    rfl
  match text, h, hmem with
  | [], h, _ => exact absurd rfl h
  | [c], _, hmem => exact .inl (hrow hmem)
  | c :: d :: rest, _, hmem =>
    rcases List.mem_cons.mp hmem with rfl | hliteral
    · exact .inr rfl
    · exact .inl (hrow hliteral)

namespace Pattern

variable {text : Text} {p : Pattern}

/-- The labels in the table of a pattern are those of its tree. -/
theorem labels_perm (p : Pattern) :
    (p.arena.entries.toList.map Entry.label).Perm (p.root.preorder.map Node.label) := by
  have hlabels : p.arena.entries.toList.map Entry.label = p.root.completed.map Node.label := by
    rw [arena, Arena.ofNode, List.map_map]
    rfl
  rw [hlabels]
  exact (List.mergeSort_perm _ _).map _

/-- The tree of a pattern is a row of literals that spells a text: a single
    empty node for no text, and else literals with at most a concatenation
    over them. -/
structure IsLiteral (p : Pattern) (text : Text) : Prop where
  spelled : p.spelled = text.map Char.toNat
  kinds : text ≠ [] → ∀ entry ∈ p.arena.entries.toList,
    entry.label.kind = .literal ∨ entry.label.kind = .concat
  nothing : text = [] → p.arena.entries.toList.map Entry.label = [.empty]

theorem isLiteral_of_shape {pattern : Text} (hparse : Pattern.parse pattern = .ok p)
    (h : p.root.shape = Shape.branch (text.map literalShape)) : p.IsLiteral text := by
  have hleaves : text.map literalShape =
      (text.map fun c => Modes.none.literal c.toNat).map fun label => .node label [] := by
    rw [List.map_map]
    rfl
  rw [hleaves] at h
  have hlabels := Node.map_label_preorder_of_row h
  refine ⟨?_, ?_, ?_⟩
  · rw [← filterMap_rowLabels, ← hlabels, spelled_eq hparse, Node.literals, List.filterMap_filter,
      List.filterMap_map]
    refine List.filterMap_congr fun n _ => ?_
    show (if n.isLiteral then n.label.literal? else none) = n.label.literal?
    unfold Node.isLiteral
    cases n.label.literal? <;> rfl
  · intro hne entry hentry
    apply kind_of_mem_rowLabels hne
    rw [← hlabels]
    exact p.labels_perm.mem_iff.mp (List.mem_map_of_mem hentry)
  · intro hnil
    have hperm := p.labels_perm
    rw [hlabels, hnil] at hperm
    exact List.perm_singleton.mp hperm

end Pattern

/-! ## Section 2: Quotes -/

/-- A search for two different characters finds the first place that holds
    both. -/
theorem Cursor.beforePair?_of_not_hasPair {a b : Char} {text : Text} (hne : a ≠ b)
    (h : ¬ HasPair a b text) (tail : Text) :
    beforePair? a b (text ++ a :: b :: tail) = some text := by
  refine beforePair?_eq_some_iff.mpr ⟨⟨tail, rfl⟩, fun hpair => ?_⟩
  have hhead : b ∉ [a].head? := fun hmem => hne (Option.some.inj hmem)
  rcases hasPair_append hhead hpair with hearlier | hlast
  · exact h hearlier
  · exact not_hasPair_singleton a b a hlast

namespace Escape

variable {modes : Modes} {groups : Nat} {cur : Cursor} {tail : Text}

theorem readQuoted_text {text : Text} (h : ¬ HasPair '\\' 'E' text)
    (hrest : cur.rest = text ++ '\\' :: 'E' :: tail) :
    readQuoted modes cur =
      (⟨quotedLeaves modes cur.pos text, none⟩, cur.advance (text.length + 2)) := by
  have hfound : Cursor.beforePair? '\\' 'E' cur.rest = some text := by
    rw [hrest, Cursor.beforePair?_of_not_hasPair (by decide) h tail]
  exact (Quotes.ended hfound).readQuoted_eq modes

theorem map_label_quotedLeaves (modes : Modes) (pos : Nat) (text : Text) :
    (quotedLeaves modes pos text).map Leaf.label = text.map fun c => modes.literal c.toNat := by
  induction text generalizing pos with
  | nil => rfl
  | cons c rest ih => rw [quotedLeaves, List.map_cons, ih, List.map_cons]

end Escape

namespace ParserState

variable {s : ParserState} {text tail : Text}

/-- The state after nodes were appended to the current branch. -/
def withNodes (s : ParserState) (nodes : List Node) (quantified : Bool) (count : Nat) :
    ParserState :=
  { s with
    frame := { s.frame with items := nodes.reverse ++ s.frame.items, quantified := quantified }
    count := count }

/-- Leaves are appended to the current branch, and nothing else changes. -/
theorem exists_foldl_addLeaf (leaves : List Escape.Leaf) (s : ParserState) :
    ∃ nodes quantified count, leaves.foldl addLeaf s = s.withNodes nodes quantified count ∧
      nodes.map Node.shape = leaves.map fun leaf => .node leaf.label [] := by
  induction leaves generalizing s with
  | nil => exact ⟨[], s.frame.quantified, s.count, rfl, rfl⟩
  | cons leaf rest ih =>
    obtain ⟨nodes, quantified, count, hstate, hshapes⟩ := ih (s.addLeaf leaf)
    refine ⟨.build s.count leaf.label leaf.start leaf.stop [] :: nodes, quantified, count, ?_, ?_⟩
    · rw [List.foldl_cons, hstate, withNodes, withNodes, List.reverse_cons, List.append_assoc]
      rfl
    · rw [List.map_cons, hshapes, Node.shape_build]
      rfl

/-- A quote is read in one step, as a literal for each character in it. -/
theorem exists_readsShapes_quote (h : ¬ HasPair '\\' 'E' text) (hmodes : s.frame.modes = .none)
    (hrest : s.cur.rest = ['\\', 'Q'] ++ text ++ ['\\', 'E'] ++ tail) :
    ∃ s', s.ReadsShapes s' (text.map literalShape) tail := by
  have hopen : s.cur.rest = '\\' :: 'Q' :: (text ++ '\\' :: 'E' :: tail) := by
    rw [hrest]
    simp
  -- the reader starts behind the mark, and stops behind the end mark
  have hinside : (s.cur.advance 2).rest = text ++ '\\' :: 'E' :: tail := by
    rw [Cursor.advance_rest, hopen]
    rfl
  have hbehind : ((s.cur.advance 2).advance (text.length + 2)).rest = tail := by
    rw [Cursor.advance_rest, hinside, ← List.drop_drop, List.drop_left]
    rfl
  have hstep : s.readAt '\\' = .ok (((Escape.quotedLeaves .none (s.cur.advance 2).pos text).foldl
      addLeaf s).moveTo ((s.cur.advance 2).advance (text.length + 2))) := by
    rw [readAt_escape hopen, readEscape, Escape.read_eq_readQuoted hopen, hmodes,
      Escape.readQuoted_text h hinside]
    rfl
  obtain ⟨nodes, quantified, count, hstate, hshapes⟩ :=
    exists_foldl_addLeaf (Escape.quotedLeaves .none (s.cur.advance 2).pos text) s
  rw [hstate] at hstep
  refine ⟨(s.withNodes nodes quantified count).moveTo
    ((s.cur.advance 2).advance (text.length + 2)), ?_⟩
  exact {
    runs := .single (next_of_readAt hmodes hopen hstep)
    rest := hbehind
    outer := rfl
    opener := rfl
    modes := rfl
    groups := rfl
    names := (List.append_nil _).symm
    references := fun _ hr => .inl hr
    finished := rfl
    items := by
      refine ⟨nodes, rfl, ?_⟩
      have hlabels := Escape.map_label_quotedLeaves .none (s.cur.advance 2).pos text
      have hleaves := congrArg (List.map fun label => Shape.node label []) hlabels
      rw [List.map_map, List.map_map] at hleaves
      exact hshapes.trans hleaves }

end ParserState

/-! ## Section 3: Both ways of writing -/

/-- An escaped text is in parts, one for each character. -/
theorem Pattern.exists_parse_escape (text : Text) :
    ∃ p, Pattern.parse (Literal.escape text) = .ok p ∧
      p.root.shape = Shape.branch (text.map literalShape) := by
  let parts : List (Text × Shape) := text.map fun c => (Literal.escapeChar c, literalShape c)
  have hparts : ∀ part ∈ parts, IsPart part.1 part.2 := by
    intro part hpart
    obtain ⟨c, -, rfl⟩ := List.mem_map.mp hpart
    exact FormClass.isPart_text (a := .char c) trivial
  have htext : parts.flatMap Prod.fst = Literal.escape text := List.flatMap_map _ _ _
  have hshapes : parts.map Prod.snd = text.map literalShape := List.map_map
  rw [← htext, ← hshapes]
  exact parse_parts hparts

/-- A text is read back from both of its written forms, as literals that
    spell it. -/
theorem Pattern.parse_literalText (text : Text) :
    (∃ p, Pattern.parse (Literal.escape text) = .ok p ∧ p.IsLiteral text) ∧
      (¬ HasPair '\\' 'E' text →
        ∃ p, Pattern.parse (['\\', 'Q'] ++ text ++ ['\\', 'E']) = .ok p ∧ p.IsLiteral text) := by
  constructor
  · obtain ⟨p, hparse, hshape⟩ := exists_parse_escape text
    exact ⟨p, hparse, isLiteral_of_shape hparse hshape⟩
  · intro hquotable
    have hrest : (ParserState.initial (['\\', 'Q'] ++ text ++ ['\\', 'E'])).cur.rest =
        ['\\', 'Q'] ++ text ++ ['\\', 'E'] ++ [] := (List.append_nil _).symm
    obtain ⟨last, hlast⟩ := ParserState.exists_readsShapes_quote hquotable rfl hrest
    obtain ⟨p, hparse, hshape⟩ := hlast.exists_parse
    exact ⟨p, hparse, isLiteral_of_shape hparse hshape⟩

/-- A mark, a line break, and a backslash at the end, which stands before the
    closing pair of the quote. -/
theorem Pattern.parse_literalText_of_backslash :
    ¬ HasPair '\\' 'E' ['.', '\n', '\\'] ∧
      (∃ p, Pattern.parse ['\\', '.', '\\', 'n', '\\', '\\'] = .ok p ∧
        p.IsLiteral ['.', '\n', '\\']) ∧
      ∃ p, Pattern.parse ['\\', 'Q', '.', '\n', '\\', '\\', 'E'] = .ok p ∧
        p.IsLiteral ['.', '\n', '\\'] := by
  have hquotable : ¬ HasPair '\\' 'E' ['.', '\n', '\\'] :=
    Cursor.beforePair?_eq_none_iff.mp rfl
  obtain ⟨hescaped, hquoted⟩ := Pattern.parse_literalText ['.', '\n', '\\']
  exact ⟨hquotable, hescaped, hquoted hquotable⟩

end RegexInsight
