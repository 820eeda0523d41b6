import Mathlib
import RegexInsight.Proofs.Dialect.Lookup
import RegexInsight.Proofs.Inference.Shape
import RegexInsight.Proofs.Pattern.Flat
import RegexInsight.Proofs.Pattern.Parts

/-! # Inferred patterns as input

    The pattern for texts of one shape is parsed again, with anchors or
    without, as a flat pattern.  Its widths are those of the shortest and
    the longest runs, place by place, and it is plain enough for every
    dialect and for a linear-time engine. -/

namespace RegexInsight

/-! ## Section 1: The tree of a piece -/

namespace FormClass

theorem isInert_label (a : FormClass) : a.label.IsInert := by
  cases a with
  | char c => exact .literal
  | shorthand s => exact .charClass
  | bracket items => exact .charClass

theorem reach_label (a : FormClass) :
    (a.label.reach []).minWidth = 1 ∧ (a.label.reach []).maxWidth = some 1 := by
  cases a <;> exact ⟨rfl, rfl⟩

end FormClass

namespace Piece

variable {p : Piece}

theorem isFlatItem_shape (p : Piece) : p.shape.IsFlatItem := by
  unfold shape
  split
  next => exact .leaf p.accepted.isInert_label
  next => exact .counted p.accepted.isInert_label

/-- A piece consumes as many characters as its count admits. -/
theorem IsSimple.reach_shape (h : p.IsSimple) :
    p.shape.reach.minWidth = p.count.min ∧ p.shape.reach.maxWidth = p.count.max := by
  obtain ⟨-, low, high, hlow, hle, hcount⟩ := h
  obtain ⟨hmin, hmax⟩ := p.accepted.reach_label
  unfold shape
  split
  next honce =>
    rw [honce]
    exact ⟨hmin, hmax⟩
  next =>
    have hpos : high ≠ 0 := by omega
    rw [hcount]
    show (Reach.repeated ⟨low, some high⟩ (p.accepted.label.reach [])).minWidth = low ∧
      (Reach.repeated ⟨low, some high⟩ (p.accepted.label.reach [])).maxWidth = some high
    simp [Reach.repeated, hpos, hmin, hmax]

end Piece

/-! ## Section 2: Widths -/

/-- The length of the shortest run. -/
def shortestRun (column : List Run) : Nat :=
  (lengthsOf column).min?.getD 0

/-- The length of the longest run. -/
def longestRun (column : List Run) : Nat :=
  (lengthsOf column).max?.getD 0

/-- Literal pieces have the width of their text. -/
theorem sum_chars {width : Piece → Nat} (h : ∀ c, width (.char c) = 1) (text : Text) :
    ((text.map Piece.char).map width).sum = text.length := by
  induction text with
  | nil => rfl
  | cons c rest ih =>
    rw [List.map_cons, List.map_cons, List.sum_cons, ih, h, List.length_cons, Nat.add_comm]

/-- The pieces of a column count from the shortest to the longest run. -/
theorem IsColumn.sum_counts {key : RunKey} {column : List Run} (h : IsColumn key column) :
    ((piecesOf column).map fun p => p.count.min).sum = shortestRun column ∧
      ((piecesOf column).map fun p => p.count.max.getD 0).sum = longestRun column := by
  rw [shortestRun, longestRun, ← leastLength_eq, ← greatestLength_eq]
  rcases h.piecesOf_cases with ⟨text, hpieces, hsame⟩ | hpieces
  · have hlength : ∀ n ∈ lengthsOf column, n = text.length := by
      intro n hn
      obtain ⟨r, hr, rfl⟩ := exists_length_eq hn
      rw [hsame r hr]
    rw [hpieces, sum_chars (fun _ => rfl), sum_chars (fun _ => rfl)]
    exact ⟨(hlength _ (leastLength_mem h.lengthsOf_ne_nil)).symm,
      (hlength _ (greatestLength_mem h.lengthsOf_ne_nil)).symm⟩
  · rw [hpieces]
    exact ⟨rfl, rfl⟩

theorem sum_groupPieces {group : List (List Run)} {width : Piece → Nat} {total : List Run → Nat}
    (h : ∀ column ∈ positions group, ((piecesOf column).map width).sum = total column) :
    ((groupPieces group).map width).sum = ((positions group).map total).sum := by
  rw [groupPieces, List.map_flatMap, List.flatMap_def, List.sum_flatten, List.map_map]
  exact congrArg List.sum (List.map_congr_left h)

/-- Place by place the widths of the pieces are those of the runs. -/
theorem IsGroup.sum_widths {shape : List RunKey} {group : List (List Run)}
    (h : IsGroup shape group) :
    ((groupPieces group).map fun p => p.shape.reach.minWidth).sum =
        ((positions group).map shortestRun).sum ∧
      Reach.sumWidths ((groupPieces group).map fun p => p.shape.reach.maxWidth) =
        some ((positions group).map longestRun).sum := by
  have hcolumns : ∀ column ∈ positions group,
      ((piecesOf column).map fun p => p.count.min).sum = shortestRun column ∧
        ((piecesOf column).map fun p => p.count.max.getD 0).sum = longestRun column := by
    intro column hcolumn
    obtain ⟨key, hkey⟩ := h.exists_isColumn hcolumn
    exact hkey.sum_counts
  have hmin : ∀ p ∈ groupPieces group, p.shape.reach.minWidth = p.count.min :=
    fun p hp => (h.isSimple_of_mem p hp).reach_shape.1
  -- every count has an upper bound, so the sum of the upper widths is one too
  have hmax : ∀ p ∈ groupPieces group, p.shape.reach.maxWidth = some (p.count.max.getD 0) := by
    intro p hp
    obtain ⟨low, high, -, -, hcount⟩ := (h.isSimple_of_mem p hp).count
    rw [(h.isSimple_of_mem p hp).reach_shape.2, hcount]
    rfl
  have hsome : ((groupPieces group).map fun p => some (p.count.max.getD 0)) =
      ((groupPieces group).map fun p => p.count.max.getD 0).map some := by
    rw [List.map_map]
    rfl
  rw [List.map_congr_left hmin, List.map_congr_left hmax, hsome, Reach.sumWidths_map_some]
  exact ⟨sum_groupPieces fun column hcolumn => (hcolumns column hcolumn).1,
    congrArg some (sum_groupPieces fun column hcolumn => (hcolumns column hcolumn).2)⟩

/-! ## Section 3: Counts can be written -/

/-- A run is no longer than its text. -/
theorem Run.length_le_of_mem_split {text : Text} {r : Run} (hr : r ∈ split text) :
    r.text.length ≤ text.length := by
  have hsublist : r.text.Sublist ((split text).map Run.text).flatten :=
    List.sublist_flatten_of_mem (List.mem_map_of_mem hr)
  rw [flatten_split] at hsublist
  exact hsublist.length_le

namespace IsGroup

variable {shape : List RunKey} {group : List (List Run)} {column : List Run} {r : Run}

/-- What stands in a column comes from a row. -/
theorem exists_row_of_mem (h : IsGroup shape group) (hcolumn : column ∈ positions group)
    (hr : r ∈ column) : ∃ row ∈ group, r ∈ row := by
  induction shape generalizing group with
  | nil =>
    rw [h.positions_nil] at hcolumn
    exact absurd hcolumn List.not_mem_nil
  | cons key shape ih =>
    rw [positions_of_forall_ne_nil h.nonempty h.ne_nil_of_mem] at hcolumn
    rcases List.mem_cons.mp hcolumn with rfl | hlater
    · obtain ⟨row, hrow, hfirst⟩ := List.mem_filterMap.mp hr
      exact ⟨row, hrow, List.mem_of_head? hfirst⟩
    · obtain ⟨tail, htail, hmem⟩ := ih h.tails hlater
      obtain ⟨row, hrow, rfl⟩ := List.mem_map.mp htail
      exact ⟨row, hrow, List.mem_of_mem_tail hmem⟩

end IsGroup

/-- The counts of a column can be written when the lengths of its runs can. -/
theorem IsColumn.isPrintable_count {key : RunKey} {column : List Run} (h : IsColumn key column)
    (hshort : ∀ r ∈ column, r.text.length < 10 ^ Numeral.maxDigits) {p : Piece}
    (hp : p ∈ piecesOf column) : p.count.IsPrintable := by
  have hlength : ∀ n ∈ lengthsOf column, IsWritable n := by
    intro n hn
    obtain ⟨r, hr, rfl⟩ := exists_length_eq hn
    exact isWritable_of_lt (hshort r hr)
  obtain ⟨low, high, -, hle, hcount⟩ := (h.isSimple_of_mem hp).count
  have hordered : p.count.Ordered := by
    rw [hcount]
    exact fun high' hhigh => Option.some.inj hhigh ▸ hle
  rcases h.piecesOf_cases with ⟨text, hpieces, -⟩ | hpieces
  · rw [hpieces] at hp
    obtain ⟨c, -, rfl⟩ := List.mem_map.mp hp
    have hone : IsWritable 1 := isWritable_of_lt (Nat.one_lt_pow (by decide) (by decide))
    exact ⟨hordered, hone, fun high hhigh => Option.some.inj hhigh ▸ hone⟩
  · rw [hpieces] at hp
    obtain rfl := List.mem_singleton.mp hp
    exact ⟨hordered, hlength _ (leastLength_mem h.lengthsOf_ne_nil),
      fun high hhigh => Option.some.inj hhigh ▸ hlength _ (greatestLength_mem h.lengthsOf_ne_nil)⟩

theorem isPrintable_of_mem_groupPieces {texts : List Text} {shape : List RunKey}
    (h : IsGroup shape (texts.map Run.split))
    (hshort : ∀ text ∈ texts, text.length < 10 ^ Numeral.maxDigits) {p : Piece}
    (hp : p ∈ groupPieces (texts.map Run.split)) : p.count.IsPrintable := by
  obtain ⟨column, hcolumn, hmem⟩ := List.mem_flatMap.mp hp
  obtain ⟨key, hkey⟩ := h.exists_isColumn hcolumn
  refine hkey.isPrintable_count (fun r hr => ?_) hmem
  obtain ⟨row, hrow, hin⟩ := h.exists_row_of_mem hcolumn hr
  obtain ⟨text, htext, rfl⟩ := List.mem_map.mp hrow
  exact lt_of_le_of_lt (Run.length_le_of_mem_split hin) (hshort text htext)

/-! ## Section 4: Clean patterns -/

/-- A pattern of known widths that is plain for every part of the analysis. -/
structure Pattern.IsClean (p : Pattern) (low high : Nat) : Prop where
  minWidth : p.root.minWidth = low
  maxWidth : p.root.maxWidth = some high
  activeFlags : p.profile.activeFlags = []
  verdicts : Registry.builtin.check p.profile none =
    .ok ⟨Registry.builtin.ids.map fun id => (id, .supported)⟩
  engine : selectEngine p.profile = .linearTime
  score : p.profile.staticScore = 0

/-- Every built-in dialect supports what has no active flag. -/
theorem Registry.check_builtin_of_activeFlags {profile : FeatureProfile}
    (h : profile.activeFlags = []) : Registry.builtin.check profile none =
      .ok ⟨Registry.builtin.ids.map fun id => (id, .supported)⟩ := by
  rw [Reachable.builtin.isKept.check_none_of_lookupKey (by decide +kernel), Registry.ids,
    List.map_map]
  have hverdicts : ∀ d ∈ Registry.builtin.dialects,
      (d.id, d.judge profile) = (d.id, .supported) :=
    fun d _ => congrArg (Prod.mk d.id) (Dialect.judge_of_activeFlags h)
  exact congrArg (fun verdicts => Except.ok (PortabilityReport.mk verdicts))
    (List.map_congr_left hverdicts)

/-- Parts that are leaves, or leaves with a quantifier, make a clean pattern. -/
theorem Pattern.exists_isClean {parts : List (Text × Shape)} {low high : Nat}
    (hparts : ∀ part ∈ parts, IsPart part.1 part.2)
    (hflat : ∀ part ∈ parts, part.2.IsFlatItem)
    (hlow : (parts.map fun part => part.2.reach.minWidth).sum = low)
    (hhigh : Reach.sumWidths (parts.map fun part => part.2.reach.maxWidth) = some high) :
    ∃ p, Pattern.parse (parts.flatMap Prod.fst) = .ok p ∧ p.IsClean low high := by
  obtain ⟨p, hparse, hshape⟩ := Pattern.parse_parts hparts
  have hitems : ∀ item ∈ parts.map Prod.snd, item.IsFlatItem := List.forall_mem_map.mpr hflat
  -- widths and flags depend on the tree of labels only
  have hroot : p.root.shape.IsFlat := by
    rw [hshape]
    exact Shape.isFlat_branch hitems
  have hreach : p.root.reach = (Shape.branch (parts.map Prod.snd)).reach := by
    rw [(Pattern.isNormal_of_parse hparse).reach_eq, hshape]
  have hflags : p.profile.activeFlags = [] :=
    FeatureProfile.activeFlags_eq_nil_iff.mpr (FeatureProfile.sets_of_isFlat hroot)
  refine ⟨p, hparse, ?_⟩
  exact {
    minWidth := by
      rw [Node.minWidth, hreach, Shape.minWidth_branch, List.map_map]
      exact hlow
    maxWidth := by
      rw [Node.maxWidth, hreach, Shape.maxWidth_branch, List.map_map]
      exact hhigh
    activeFlags := hflags
    verdicts := Registry.check_builtin_of_activeFlags hflags
    engine := selectEngine_of_activeFlags hflags
    score := staticScore_of_isFlat hroot }

theorem Reach.sumWidths_append_zero (widths : List (Option Nat)) :
    sumWidths (widths ++ [some 0]) = sumWidths widths := by
  induction widths with
  | nil => rfl
  | cons width rest ih =>
    rw [List.cons_append]
    cases width with
    | none => rfl
    | some w => rw [sumWidths, sumWidths, ih]

/-- Between anchors such parts make a clean pattern of the same widths. -/
theorem Pattern.exists_isClean_anchored {parts : List (Text × Shape)} {low high : Nat}
    (hparts : ∀ part ∈ parts, IsPart part.1 part.2)
    (hflat : ∀ part ∈ parts, part.2.IsFlatItem)
    (hlow : (parts.map fun part => part.2.reach.minWidth).sum = low)
    (hhigh : Reach.sumWidths (parts.map fun part => part.2.reach.maxWidth) = some high) :
    ∃ p, Pattern.parse (['^'] ++ parts.flatMap Prod.fst ++ ['$']) = .ok p ∧
      p.IsClean low high := by
  -- the anchors are two more parts, of no width
  let start : Text × Shape := (['^'], .node (.anchor .lineStart) [])
  let stop : Text × Shape := (['$'], .node (.anchor .lineEnd) [])
  have hall : ∀ {P : Text × Shape → Prop}, P start → P stop → (∀ part ∈ parts, P part) →
      ∀ part ∈ start :: (parts ++ [stop]), P part := by
    intro P hstart hstop h
    rw [List.forall_mem_cons, List.forall_mem_append, List.forall_mem_singleton]
    exact ⟨hstart, h, hstop⟩
  have htext : ['^'] ++ parts.flatMap Prod.fst ++ ['$'] =
      (start :: (parts ++ [stop])).flatMap Prod.fst := by
    rw [List.flatMap_cons, List.flatMap_append, List.flatMap_singleton, List.append_assoc]
  rw [htext]
  refine exists_isClean (hall isPart_lineStart isPart_lineEnd hparts)
    (hall (.leaf .anchor) (.leaf .anchor) hflat) ?_ ?_
  · rw [List.map_cons, List.map_append, List.sum_cons, List.sum_append, hlow]
    exact Nat.zero_add low
  · rw [List.map_cons, List.map_append]
    show (Reach.sumWidths (_ ++ [some 0])).map (0 + ·) = some high
    rw [Reach.sumWidths_append_zero, hhigh, Option.map_some, Nat.zero_add]

/-! ## Section 5: The pattern of a shape -/

/-- The parts of the pattern for a group. -/
def groupParts (group : List (List Run)) : List (Text × Shape) :=
  (groupPieces group).map fun p => (p.text, p.shape)

/-- The pattern for texts of one shape is clean, and so is this pattern
    between anchors.  The widths are those of the shortest and the longest
    runs, place by place.  A numeral may have some thousand digits, so every
    length that a text in memory can have is a number that can be written. -/
theorem ShapeForm.isClean_of_shape {texts : List Text} {shape : List RunKey} (hne : texts ≠ [])
    (h : ∀ text ∈ texts, shapeOf text = shape)
    (hshort : ∀ text ∈ texts, text.length < 10 ^ Numeral.maxDigits) :
    ∀ pattern ∈ [(ShapeForm.ofRuns (texts.map Run.split)).form.text,
        ['^'] ++ (ShapeForm.ofRuns (texts.map Run.split)).form.text ++ ['$']],
      ∃ p, Pattern.parse pattern = .ok p ∧
        p.IsClean ((positions (texts.map Run.split)).map shortestRun).sum
          ((positions (texts.map Run.split)).map longestRun).sum := by
  have hgroup := isGroup_split hne h
  have hparts : ∀ part ∈ groupParts (texts.map Run.split), IsPart part.1 part.2 := by
    refine List.forall_mem_map.mpr fun p hp => ?_
    exact Piece.isPart_text (hgroup.isSimple_of_mem p hp).accepted.isPlain
      (isPrintable_of_mem_groupPieces hgroup hshort hp)
  have hflat : ∀ part ∈ groupParts (texts.map Run.split), part.2.IsFlatItem :=
    List.forall_mem_map.mpr fun p _ => p.isFlatItem_shape
  -- the text of the form is that of its parts, one after the other
  have htext : (ShapeForm.ofRuns (texts.map Run.split)).form.text =
      (groupParts (texts.map Run.split)).flatMap Prod.fst := by
    rw [hgroup.text_ofRuns, groupParts, List.flatMap_map]
  -- place by place, the widths of the parts add up to those of the runs
  obtain ⟨hlow, hhigh⟩ := hgroup.sum_widths
  have hlowParts : ((groupParts (texts.map Run.split)).map fun part => part.2.reach.minWidth).sum =
      ((positions (texts.map Run.split)).map shortestRun).sum := by
    rw [groupParts, List.map_map]
    exact hlow
  have hhighParts :
      Reach.sumWidths ((groupParts (texts.map Run.split)).map fun part => part.2.reach.maxWidth) =
        some ((positions (texts.map Run.split)).map longestRun).sum := by
    rw [groupParts, List.map_map]
    exact hhigh
  rw [htext, List.forall_mem_cons, List.forall_mem_singleton]
  exact ⟨Pattern.exists_isClean hparts hflat hlowParts hhighParts,
    Pattern.exists_isClean_anchored hparts hflat hlowParts hhighParts⟩

/-- From three to four characters, for two codes that begin alike. -/
theorem ShapeForm.isClean_of_two_codes :
    let texts : List Text := [['x', '?', '1'], ['x', '?', '2', '2']]
    (∀ text ∈ texts, shapeOf text = [⟨.letter, []⟩, ⟨.punct, ['?']⟩, ⟨.digit, []⟩]) ∧
      ∃ p, Pattern.parse "^x\\?\\d\x7b1,2\x7d$".toList = .ok p ∧ p.IsClean 3 4 := by
  intro texts
  have hshape : ∀ text ∈ texts,
      shapeOf text = [⟨.letter, []⟩, ⟨.punct, ['?']⟩, ⟨.digit, []⟩] := by decide
  have hshort : ∀ text ∈ texts, text.length < 10 ^ Numeral.maxDigits := by
    have hten : 10 < 10 ^ Numeral.maxDigits := lt_self_pow₀ (by decide) (by decide)
    have hlength : ∀ text ∈ texts, text.length < 10 := by decide
    exact fun text htext => (hlength text htext).trans hten
  refine ⟨hshape, ?_⟩
  have hclean := ShapeForm.isClean_of_shape (by decide) hshape hshort
  have htext : (ShapeForm.ofRuns (texts.map Run.split)).form.text =
      "x\\?\\d\x7b1,2\x7d".toList := by decide +kernel
  exact hclean _ (by rw [htext]; decide)

end RegexInsight
