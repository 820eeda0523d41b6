import Mathlib
import RegexInsight.Proofs.Pattern.Replay

/-! # Spans

    The text between the start and the stop of a node should be a pattern
    for that node.  It is not where the span is set before all that belongs
    to the node has been read: a character code such as `\x41` leaves out
    its digits, and an alternation with an empty branch reaches up to the
    end of its group.  A row ends where its last item ends, and an
    alternation where its last branch does, so they pass the first fault
    on.

    `SpanAt` places an item in the text: it says where the item starts and
    stops, and that its span alone is read as the item unless it is a bare
    code.  From the items of a frame follow the spans of the branches and
    of the body that the frame closes into. -/

namespace RegexInsight

/-! ## Section 1: Spans that show their node -/

/-- Nodes that end where the last of their children ends. -/
def Label.isJoin : Label → Bool
  | concat => true
  | alternation => true
  | _ => false

namespace Node

mutual

/-- The span of a node ends with a bare code. -/
def endsBare (text : Text) : Node → Bool
  | node label mark children =>
    isBareCode (slice text mark.start mark.stop) label ||
      (label.isJoin && lastEndsBare text children)

/-- The span of the last of some nodes ends with a bare code. -/
def lastEndsBare (text : Text) : List Node → Bool
  | [] => false
  | n :: rest => if rest.isEmpty then n.endsBare text else lastEndsBare text rest

end

/-- An alternation with an empty branch. -/
def hasEmptyBranch (n : Node) : Bool :=
  n.label == .alternation && n.children.any fun branch => branch.label == .empty

/-- The first branch is empty. -/
def startsEmpty (n : Node) : Bool :=
  n.children.head?.any fun branch => branch.label == .empty

/-- The span of a node shows all that belongs to the node. -/
def isShown (text : Text) (n : Node) : Bool :=
  !n.hasEmptyBranch && !n.endsBare text

/-- The text of a node is a pattern for that node. -/
def IsRead (text : Text) (n : Node) : Prop :=
  ∃ p, Pattern.parse (n.textIn text) = .ok p ∧ p.root.outline = n.outline

/-- The text of a node is a pattern for that node exactly when its span
    shows it. -/
def IsFaithful (text : Text) (n : Node) : Prop :=
  n.names.Nodup → (n.IsRead text ↔ n.isShown text = true)

theorem lastEndsBare_concat (text : Text) (nodes : List Node) (last : Node) :
    lastEndsBare text (nodes ++ [last]) = last.endsBare text := by
  induction nodes with
  | nil => rfl
  | cons n rest ih =>
    rw [List.cons_append, lastEndsBare, ih]
    simp

theorem endsBare_build (text : Text) (count : Nat) (label : Label) (start stop : Nat)
    (children : List Node) :
    (build count label start stop children).endsBare text =
      (isBareCode (slice text start stop) label ||
        (label.isJoin && lastEndsBare text children)) := rfl

/-- Below a node stand the node itself and what stands below its children. -/
theorem mem_preorder_iff {n m : Node} :
    m ∈ n.preorder ↔ m = n ∨ ∃ child ∈ n.children, m ∈ child.preorder := by
  obtain ⟨label, mark, children⟩ := n
  rw [preorder_node, List.mem_cons, List.mem_flatMap]
  rfl

/-- Nodes with the same explicit nodes have the same names. -/
theorem names_of_explicit {n : Node} {items : List Node}
    (h : n.explicit = items.flatMap explicit) : n.names = items.flatMap names := by
  rw [names, groupKinds_eq_explicit, h, List.filterMap_flatMap, List.filterMap_flatMap]
  refine List.flatMap_congr fun item _ => ?_
  rw [names, groupKinds_eq_explicit]

end Node

namespace Cursor

/-- The cursor at an offset of a text. -/
def ofOffset (text : Text) (i : Nat) : Cursor :=
  ⟨i, text.drop i⟩

theorem advance_ofOffset (text : Text) (i n : Nat) :
    (ofOffset text i).advance n = ofOffset text (i + n) := by
  rw [advance, ofOffset, List.drop_drop]
  rfl

theorem advance_keep (cur : Cursor) (m n : Nat) :
    (cur.keep (m + n)).advance m = (cur.advance m).keep n := by
  rw [advance, keep, List.drop_take, Nat.add_sub_cancel_left]
  rfl

theorem length_keep_ofOffset {text : Text} {i n : Nat} (h : i + n ≤ text.length) :
    ((ofOffset text i).keep n).rest.length = n := by
  have hlength : (ofOffset text i).rest.length = text.length - i := List.length_drop
  rw [keep, List.length_take, hlength]
  omega

end Cursor

namespace ParserState

variable {text : Text} {cur cur' : Cursor} {item last : Node} {items before : List Node}
  {finished : List (List Node)} {f : Frame} {i m n : Nat}

/-! ## Section 2: Items -/

/-- An item stands in the `n` characters at the cursor.  They are read as
    the item, and so is its span alone, unless that is a bare code. -/
structure SpanAt (text : Text) (cur : Cursor) (item : Node) (n : Nat) : Prop where
  isItem : item.label.isItem = true
  reads : ItemAt cur item n
  start : item.start = cur.pos
  start_le : item.start ≤ item.stop
  stop_le : item.stop ≤ cur.pos + n
  shows : item.endsBare text = false →
    ItemAt (cur.keep (item.stop - item.start)) item (item.stop - item.start)
  below : ∀ child ∈ item.children, ∀ k ∈ child.preorder, k.IsFaithful text

theorem SpanAt.shorten (h : SpanAt text cur item n) (hpos : cur'.pos = cur.pos)
    (hshort : cur'.rest <+: cur.rest) : SpanAt text cur' item n where
  isItem := h.isItem
  reads := h.reads.shorten hshort
  start := h.start.trans hpos.symm
  start_le := h.start_le
  stop_le := hpos ▸ h.stop_le
  shows hends := (h.shows hends).shorten (hshort.take _)
  below := h.below

/-- What is left of an item when the text is cut behind its span. -/
theorem SpanAt.keep (h : SpanAt text cur item n) (hends : item.endsBare text = false) :
    SpanAt text (cur.keep (item.stop - item.start)) item (item.stop - item.start) where
  isItem := h.isItem
  reads := h.shows hends
  start := h.start
  start_le := h.start_le
  stop_le := by
    have hstart := h.start
    have hle := h.start_le
    show item.stop ≤ cur.pos + (item.stop - item.start)
    omega
  shows _ := (h.shows hends).shorten (List.take_prefix _ _)
  below := h.below

/-- An item that ends where its characters end. -/
theorem spanAt_of_whole (hitem : item.label.isItem = true) (hreads : ItemAt cur item n)
    (hstart : item.start = cur.pos) (hstop : item.stop = cur.pos + n)
    (hbelow : ∀ child ∈ item.children, ∀ k ∈ child.preorder, k.IsFaithful text) :
    SpanAt text cur item n where
  isItem := hitem
  reads := hreads
  start := hstart
  start_le := by omega
  stop_le := Nat.le_of_eq hstop
  shows _ := by
    have hwidth : item.stop - item.start = n := by omega
    rw [hwidth]
    exact hreads.shorten (List.take_prefix _ _)
  below := hbelow

/-! ## Section 3: Rows -/

theorem RowAt.shorten (h : RowAt (SpanAt text) cur items n) (hpos : cur'.pos = cur.pos)
    (hshort : cur'.rest <+: cur.rest) : RowAt (SpanAt text) cur' items n := by
  induction h with
  | nil => exact .nil
  | @cons item items m n _ hitem ih =>
    refine .cons ih (hitem.shorten ?_ (hshort.drop m))
    show cur'.pos + m = cur.pos + m
    rw [hpos]

/-- The items of a row stand within its characters. -/
theorem RowAt.bounds (h : RowAt (SpanAt text) cur items n) :
    ∀ item ∈ items, cur.pos ≤ item.start ∧ item.start ≤ item.stop ∧ item.stop ≤ cur.pos + n := by
  induction h with
  | nil => exact nofun
  | @cons item items m n _ hitem ih =>
    have hstart : item.start = cur.pos + m := hitem.start
    have hle := hitem.start_le
    have hstop : item.stop ≤ cur.pos + m + n := hitem.stop_le
    intro other hother
    rcases List.mem_cons.mp hother with rfl | hother
    · omega
    · obtain ⟨hlower, hspan, hupper⟩ := ih other hother
      omega

/-- A row starts with its first item. -/
theorem RowAt.first_start (h : RowAt (SpanAt text) cur items n) {first : Node}
    (hfirst : items.getLast? = some first) : first.start = cur.pos := by
  induction h with
  | nil => nomatch hfirst
  | @cons item items m n hrow hitem ih =>
    cases hrow with
    | nil =>
      obtain rfl := Option.some.inj hfirst
      exact hitem.start
    | cons => exact ih hfirst

/-- Every item of a row has its place there. -/
theorem RowAt.exists_item (h : RowAt (SpanAt text) cur items n) :
    ∀ item ∈ items, ∃ j k, SpanAt text (cur.advance j) item k ∧ j + k ≤ n := by
  induction h with
  | nil => exact nofun
  | @cons item items m n _ hitem ih =>
    intro other hother
    rcases List.mem_cons.mp hother with rfl | hother
    · exact ⟨m, n, hitem, Nat.le_refl _⟩
    · obtain ⟨j, k, hspan, hle⟩ := ih other hother
      exact ⟨j, k, hspan, by omega⟩

/-! ## Section 4: Branches -/

section Branch

variable (count stop : Nat)

theorem closeBranch_concat (first last : Node) (middle : List Node) :
    (closeBranch count stop (first :: (middle ++ [last]))).1 =
      .build count .concat first.start last.stop (first :: (middle ++ [last])) := by
  cases middle with
  | nil => rfl
  | cons second rest => simp [closeBranch]

/-- A branch starts with its first item, and ends as its last one does. -/
theorem RowAt.branch_span (h : RowAt (SpanAt text) cur (last :: before) n) :
    (closeBranch count stop (last :: before).reverse).1.start = cur.pos ∧
      (closeBranch count stop (last :: before).reverse).1.stop = last.stop ∧
      (closeBranch count stop (last :: before).reverse).1.endsBare text = last.endsBare text := by
  rw [List.reverse_cons]
  cases hbefore : before.reverse with
  | nil =>
    obtain rfl := List.reverse_eq_nil_iff.mp hbefore
    exact ⟨h.first_start rfl, rfl, rfl⟩
  | cons first middle =>
    have hfirst : (last :: before).getLast? = some first := by
      rw [← List.head?_reverse, List.reverse_cons, hbefore]
      rfl
    have hstart := h.first_start hfirst
    rw [List.cons_append, closeBranch_concat]
    refine ⟨hstart, rfl, ?_⟩
    rw [Node.endsBare_build, ← Node.lastEndsBare_concat text (first :: middle) last]
    rfl

theorem outline_closeBranch (items : List Node) :
    (closeBranch count stop items).1.outline = Shape.branch (items.map Node.outline) := by
  rw [Node.outline, shape_closeBranch, branchShape, Shape.unnumbered_branch, List.map_map]
  rfl

theorem mem_preorder_closeBranch {items : List Node} {k : Node}
    (h : k ∈ (closeBranch count stop items).1.preorder) :
    k = (closeBranch count stop items).1 ∨ ∃ item ∈ items, k ∈ item.preorder := by
  match items with
  | [] => exact Node.mem_preorder_iff.mp h
  | [only] => exact .inr ⟨only, List.mem_singleton_self only, h⟩
  | first :: second :: rest => exact Node.mem_preorder_iff.mp h

end Branch

/-! ## Section 5: Bodies -/

theorem BarsAt.shorten (h : BarsAt (SpanAt text) cur finished m) (hpos : cur'.pos = cur.pos)
    (hshort : cur'.rest <+: cur.rest) (hlength : m ≤ cur'.rest.length) :
    BarsAt (SpanAt text) cur' finished m := by
  induction h with
  | nil => exact .nil
  | @cons finished items m n rest _ hrow hbar ih =>
    have hcut : cur.Cut cur' (m + n + 1) := ⟨hshort, hlength⟩
    obtain ⟨rest', hrest', -⟩ := hcut.advance.exists_cons hbar Nat.one_pos
    refine .cons (ih (by omega)) (hrow.shorten ?_ (hshort.drop m)) hrest'
    show cur'.pos + m = cur.pos + m
    rw [hpos]

/-- Every branch but the last stands before its bar. -/
theorem BarsAt.exists_row (h : BarsAt (SpanAt text) cur finished m) :
    ∀ items ∈ finished, ∃ j n, RowAt (SpanAt text) (cur.advance j) items.reverse n ∧ j + n < m := by
  induction h with
  | nil => exact nofun
  | @cons finished items m n rest _ hrow _ ih =>
    intro other hother
    rcases List.mem_cons.mp hother with rfl | hother
    · rw [List.reverse_reverse]
      exact ⟨m, n, hrow, Nat.lt_succ_self _⟩
    · obtain ⟨j, k, hrow, hlt⟩ := ih other hother
      exact ⟨j, k, hrow, by omega⟩

/-- The first branch stands at the start. -/
theorem BarsAt.first_row (h : BarsAt (SpanAt text) cur finished m)
    (hfirst : finished.getLast? = some items) :
    ∃ n, RowAt (SpanAt text) cur items.reverse n := by
  induction h with
  | nil => nomatch hfirst
  | @cons finished items' m n rest hbars hrow _ ih =>
    cases hbars with
    | nil =>
      obtain rfl : items'.reverse = items := Option.some.inj hfirst
      rw [List.reverse_reverse]
      exact ⟨n, hrow⟩
    | cons => exact ih hfirst

theorem BodyAt.shorten (h : BodyAt (SpanAt text) cur f n) (hpos : cur'.pos = cur.pos)
    (hshort : cur'.rest <+: cur.rest) (hlength : n ≤ cur'.rest.length) :
    BodyAt (SpanAt text) cur' f n := by
  obtain @⟨m, k, hbars, hrow⟩ := h
  refine .intro (hbars.shorten hpos hshort (by omega)) (hrow.shorten ?_ (hshort.drop m))
  show cur'.pos + m = cur.pos + m
  rw [hpos]

theorem branches_eq (f : Frame) : f.branches = f.finished.reverse ++ [f.items.reverse] :=
  List.reverse_cons

theorem BodyAt.exists_row (h : BodyAt (SpanAt text) cur f n) :
    ∀ items ∈ f.branches,
      ∃ j k, RowAt (SpanAt text) (cur.advance j) items.reverse k ∧ j + k ≤ n := by
  obtain @⟨m, n, hbars, hrow⟩ := h
  intro items hitems
  rw [branches_eq] at hitems
  rcases List.mem_append.mp hitems with hitems | hitems
  · obtain ⟨j, k, hrow, hlt⟩ := hbars.exists_row items (List.mem_reverse.mp hitems)
    exact ⟨j, k, hrow, by omega⟩
  · obtain rfl := List.mem_singleton.mp hitems
    rw [List.reverse_reverse]
    exact ⟨m, n, hrow, Nat.le_refl _⟩

theorem BodyAt.first_row (h : BodyAt (SpanAt text) cur f n)
    (hfirst : f.branches.head? = some items) : ∃ k, RowAt (SpanAt text) cur items.reverse k := by
  obtain @⟨m, k, hbars, hrow⟩ := h
  rw [branches_eq] at hfirst
  by_cases hmany : f.finished = []
  · rw [hmany] at hbars hfirst
    cases hbars
    obtain rfl : f.items.reverse = items := Option.some.inj hfirst
    rw [List.reverse_reverse]
    exact ⟨k, hrow⟩
  · rw [List.head?_append_of_ne_nil _ (by simpa using hmany), List.head?_reverse] at hfirst
    exact hbars.first_row hfirst

theorem greatestStop_le_iff {nodes : List Node} {bound : Nat} :
    greatestStop nodes ≤ bound ↔ ∀ n ∈ nodes, n.stop ≤ bound := by
  have hfold : ∀ (nodes : List Node) (greatest : Nat),
      nodes.foldl (fun greatest m => max greatest m.stop) greatest ≤ bound ↔
        greatest ≤ bound ∧ ∀ n ∈ nodes, n.stop ≤ bound := by
    intro nodes
    induction nodes with
    | nil => simp
    | cons n rest ih =>
      intro greatest
      rw [List.foldl_cons, ih, List.forall_mem_cons, Nat.max_le, and_assoc]
  rw [greatestStop, hfold]
  simp

theorem le_leastStart_iff {first : Node} {rest : List Node} {bound : Nat} :
    bound ≤ leastStart (first :: rest) ↔ ∀ n ∈ first :: rest, bound ≤ n.start := by
  have hfold : ∀ (nodes : List Node) (least : Nat),
      bound ≤ nodes.foldl (fun least m => min least m.start) least ↔
        bound ≤ least ∧ ∀ n ∈ nodes, bound ≤ n.start := by
    intro nodes
    induction nodes with
    | nil => simp
    | cons n rest ih =>
      intro least
      rw [List.foldl_cons, ih, List.forall_mem_cons, Nat.le_min, and_assoc]
  rw [leastStart, hfold, List.forall_mem_cons]

theorem greatestStop_eq {nodes : List Node} {node : Node} {greatest : Nat} (hnode : node ∈ nodes)
    (hstop : node.stop = greatest) (h : ∀ n ∈ nodes, n.stop ≤ greatest) :
    greatestStop nodes = greatest := by
  apply Nat.le_antisymm (greatestStop_le_iff.mpr h)
  rw [← hstop]
  exact greatestStop_le_iff.mp (Nat.le_refl _) node hnode

theorem leastStart_eq {nodes : List Node} {node : Node} {least : Nat} (hnode : node ∈ nodes)
    (hstart : node.start = least) (h : ∀ n ∈ nodes, least ≤ n.start) :
    leastStart nodes = least := by
  cases nodes with
  | nil => exact absurd hnode List.not_mem_nil
  | cons first rest =>
    apply Nat.le_antisymm _ (le_leastStart_iff.mpr h)
    rw [← hstart]
    exact le_leastStart_iff.mp (Nat.le_refl _) node hnode

section Body

variable (count stop : Nat)

theorem closeBranches_cons (items : List Node) (rest : List (List Node)) :
    (closeBranches count stop (items :: rest)).1 =
      (closeBranch count stop items).1 ::
        (closeBranches (closeBranch count stop items).2 stop rest).1 := rfl

theorem closeBranches_append (branches branches' : List (List Node)) :
    ∃ count', (closeBranches count stop (branches ++ branches')).1 =
      (closeBranches count stop branches).1 ++ (closeBranches count' stop branches').1 := by
  induction branches generalizing count with
  | nil => exact ⟨count, rfl⟩
  | cons items rest ih =>
    obtain ⟨count', hrest⟩ := ih (closeBranch count stop items).2
    exact ⟨count', congrArg (_ :: ·) hrest⟩

theorem exists_of_mem_closeBranches {count stop : Nat} {branches : List (List Node)} {node : Node}
    (h : node ∈ (closeBranches count stop branches).1) :
    ∃ items ∈ branches, ∃ count', node = (closeBranch count' stop items).1 := by
  induction branches generalizing count with
  | nil => nomatch h
  | cons items rest ih =>
    rcases List.mem_cons.mp h with rfl | h
    · exact ⟨items, List.mem_cons_self, count, rfl⟩
    · obtain ⟨other, hother, hnode⟩ := ih h
      exact ⟨other, List.mem_cons_of_mem _ hother, hnode⟩

theorem exists_mem_closeBranches {branches : List (List Node)} {items : List Node}
    (h : items ∈ branches) :
    ∃ count', (closeBranch count' stop items).1 ∈ (closeBranches count stop branches).1 := by
  induction branches generalizing count with
  | nil => nomatch h
  | cons other rest ih =>
    rcases List.mem_cons.mp h with rfl | h
    · exact ⟨count, List.mem_cons_self⟩
    · obtain ⟨count', hmem⟩ := ih (closeBranch count stop other).2 h
      exact ⟨count', List.mem_cons_of_mem _ hmem⟩

/-- A branch that is not empty has the span of its row. -/
theorem RowAt.branch_bounds (h : RowAt (SpanAt text) cur items.reverse n) (hsome : items ≠ []) :
    (closeBranch count stop items).1.start = cur.pos ∧
      (closeBranch count stop items).1.stop ≤ cur.pos + n := by
  cases hreverse : items.reverse with
  | nil => exact absurd (List.reverse_eq_nil_iff.mp hreverse) hsome
  | cons last before =>
    obtain rfl := List.reverse_eq_iff.mp hreverse
    rw [List.reverse_reverse] at h
    obtain ⟨hstart, hstop, -⟩ := h.branch_span count stop
    obtain ⟨-, -, hupper⟩ := h.bounds last List.mem_cons_self
    exact ⟨hstart, hstop ▸ hupper⟩

/-- A body is left when the text is cut behind the span of its last item. -/
theorem BodyAt.keep (h : BodyAt (SpanAt text) cur f n) (hlength : n ≤ cur.rest.length)
    (hitems : f.items = last :: before) (hends : last.endsBare text = false) :
    BodyAt (SpanAt text) (cur.keep (last.stop - cur.pos)) f (last.stop - cur.pos) := by
  obtain ⟨j, k, rfl, hlast, hbefore⟩ := h.exists_last hitems
  have hstart : last.start = cur.pos + j := hlast.start
  have hle := hlast.start_le
  have hwidth : last.stop - cur.pos = j + (last.stop - last.start) := by omega
  have hkept : j ≤ (cur.keep (j + (last.stop - last.start))).rest.length := by
    rw [Cursor.keep, List.length_take]
    omega
  have hbefore' : BodyAt (SpanAt text) (cur.keep (j + (last.stop - last.start)))
      { f with items := before } j := hbefore.shorten rfl (List.take_prefix _ _) hkept
  have hlast' := hlast.keep hends
  rw [← Cursor.advance_keep] at hlast'
  rw [hwidth]
  exact (hbefore'.push hlast').of_items rfl hitems

/-- Branches before their bars, none of them empty: the first one starts at
    the cursor, and no other one starts before it or stops behind the bars. -/
theorem BarsAt.branch_bounds (h : BarsAt (SpanAt text) cur finished m)
    (hsome : ∀ items ∈ finished, items ≠ []) (hmany : finished ≠ []) :
    (∃ node ∈ (closeBranches count stop finished.reverse).1, node.start = cur.pos) ∧
      ∀ node ∈ (closeBranches count stop finished.reverse).1,
        cur.pos ≤ node.start ∧ node.stop < cur.pos + m := by
  constructor
  · obtain ⟨items, others, hfirst⟩ :=
      List.exists_cons_of_ne_nil (mt List.reverse_eq_nil_iff.mp hmany)
    have hend : finished.getLast? = some items := by
      rw [← List.head?_reverse, hfirst]
      rfl
    obtain ⟨n, hrow⟩ := h.first_row hend
    obtain ⟨hfrom, -⟩ := hrow.branch_bounds count stop (hsome items (List.mem_of_getLast? hend))
    rw [hfirst, closeBranches_cons]
    exact ⟨_, List.mem_cons_self, hfrom⟩
  · intro node hnode
    obtain ⟨items, hmem, c, rfl⟩ := exists_of_mem_closeBranches hnode
    have hmem := List.mem_reverse.mp hmem
    obtain ⟨j, n, hrow, hlt⟩ := h.exists_row items hmem
    obtain ⟨hfrom, hto⟩ := hrow.branch_bounds c stop (hsome items hmem)
    have hpos : (cur.advance j).pos = cur.pos + j := rfl
    omega

/-- The span over several branches, none of them empty: it starts with the
    first branch, and ends as the last item does. -/
theorem BodyAt.alternation_span (h : BodyAt (SpanAt text) cur f n)
    (hitems : f.items = last :: before) (hmany : f.finished ≠ [])
    (hsome : ∀ items ∈ f.finished, items ≠ []) :
    leastStart (closeBranches count stop f.branches).1 = cur.pos ∧
      greatestStop (closeBranches count stop f.branches).1 = last.stop ∧
      Node.lastEndsBare text (closeBranches count stop f.branches).1 = last.endsBare text := by
  obtain @⟨m, k, hbars, hrow⟩ := h
  rw [hitems] at hrow
  -- the branch that is still open is closed last, at the end of the frame
  obtain ⟨count', happend⟩ := closeBranches_append count stop
    f.finished.reverse [f.items.reverse]
  have hlast : (closeBranches count' stop [f.items.reverse]).1 =
      [(closeBranch count' stop (last :: before).reverse).1] := by
    rw [hitems]
    rfl
  obtain ⟨hstart, hstop, hends⟩ := hrow.branch_span count' stop
  obtain ⟨hlower, hspan, -⟩ := hrow.bounds last List.mem_cons_self
  have hpos : (cur.advance m).pos = cur.pos + m := rfl
  rw [hpos] at hstart hlower
  obtain ⟨⟨first, hfirst, hfrom⟩, hbounds⟩ := hbars.branch_bounds count stop hsome hmany
  rw [branches_eq, happend, hlast]
  refine ⟨?start, ?stop, ?ends⟩
  case start =>
    apply leastStart_eq (List.mem_append_left _ hfirst) hfrom
    intro node hnode
    rcases List.mem_append.mp hnode with hnode | hnode
    · exact (hbounds node hnode).1
    · obtain rfl := List.mem_singleton.mp hnode
      omega
  case stop =>
    apply greatestStop_eq (List.mem_append_right _ (List.mem_singleton_self _)) hstop
    intro node hnode
    rcases List.mem_append.mp hnode with hnode | hnode
    · have hbefore := (hbounds node hnode).2
      omega
    · obtain rfl := List.mem_singleton.mp hnode
      exact Nat.le_of_eq hstop
  case ends =>
    rw [Node.lastEndsBare_concat, hends]

theorem closeBody_of_many {after : Nat} {bodies : List Node} (h : bodies.length ≠ 1) :
    (closeBody after bodies).1 =
      .build after .alternation (leastStart bodies) (greatestStop bodies) bodies := by
  match bodies with
  | [] => rfl
  | [only] => exact absurd rfl h
  | first :: second :: rest => rfl

/-- The body over several branches is an alternation. -/
theorem closeBody_of_finished (h : f.finished ≠ []) (after : Nat) :
    (closeBody after (closeBranches count stop f.branches).1).1 =
      .build after .alternation (leastStart (closeBranches count stop f.branches).1)
        (greatestStop (closeBranches count stop f.branches).1)
        (closeBranches count stop f.branches).1 := by
  apply closeBody_of_many
  intro hone
  rw [length_closeBranches, branches_eq, List.length_append] at hone
  exact h (List.eq_nil_of_length_eq_zero (by simpa using hone))

theorem outline_closeBody (after : Nat) :
    (closeBody after (closeBranches count stop f.branches).1).1.outline =
      Shape.body f.outlines := by
  rw [Node.outline, shape_closeBody, shape_closeBranches, Shape.unnumbered_body, Frame.outlines_eq]
  rfl

theorem names_closeBody (after : Nat) :
    (closeBody after (closeBranches count stop f.branches).1).1.names = f.itemNames := by
  apply Node.names_of_explicit
  rw [explicit_closeBody, explicit_closeBranches]
  rfl

theorem mem_preorder_closeBody {after : Nat} {bodies : List Node} {k : Node}
    (h : k ∈ (closeBody after bodies).1.preorder) :
    (k = (closeBody after bodies).1 ∧ bodies.length ≠ 1) ∨ ∃ node ∈ bodies, k ∈ node.preorder := by
  match bodies with
  | [] => exact (Node.mem_preorder_iff.mp h).imp_left fun hk => ⟨hk, by decide⟩
  | [only] => exact .inr ⟨only, List.mem_singleton_self only, h⟩
  | first :: second :: rest =>
    exact (Node.mem_preorder_iff.mp h).imp_left fun hk => ⟨hk, by simp⟩

/-- The span over branches, none of them empty: it starts with the first
    branch, and ends as the last item does. -/
theorem BodyAt.body_span (h : BodyAt (SpanAt text) cur f n) (hitems : f.items = last :: before)
    (hsome : ∀ items ∈ f.finished, items ≠ []) (after : Nat) :
    (closeBody after (closeBranches count stop f.branches).1).1.start = cur.pos ∧
      (closeBody after (closeBranches count stop f.branches).1).1.stop = last.stop ∧
      (closeBody after (closeBranches count stop f.branches).1).1.endsBare text =
        last.endsBare text := by
  by_cases hmany : f.finished = []
  · have hone : (closeBody after (closeBranches count stop f.branches).1).1 =
        (closeBranch count stop (last :: before).reverse).1 := by
      rw [branches_eq, hmany, hitems]
      rfl
    obtain @⟨m, k, hbars, hrow⟩ := h
    rw [hmany] at hbars
    cases hbars
    rw [hitems] at hrow
    rw [hone]
    exact hrow.branch_span count stop
  · obtain ⟨hstart, hstop, hends⟩ := h.alternation_span count stop hitems hmany hsome
    rw [closeBody_of_finished _ _ hmany]
    refine ⟨hstart, hstop, ?_⟩
    rw [Node.endsBare_build, hends]
    rfl

end Body

end ParserState

end RegexInsight
