import Mathlib
import RegexInsight.Proofs.Pattern.ArenaForm
import RegexInsight.Proofs.Pattern.Excerpt

/-! # How the tree lies in the text

    Every node stands at a piece of the text, and the pieces nest as the
    nodes do: children lie within their parent and apart from each other, so
    of any two nodes one lies within the other or they are apart.

    While a pattern is read, the nodes of an open frame stand one behind the
    other between the start of the frame and the place where the next frame
    starts, or the cursor if there is none.  A step only appends at this end.
    When a frame is closed, a branch goes from its first item to its last
    one; only an empty branch has no item that says where it stands, and it is
    put at the very end. -/

namespace RegexInsight

/-! ## Section 1: Pieces of text -/

namespace Label

/-- What is written within parentheses. -/
def isEnclosing : Label → Bool
  | group _ | lookaround _ _ | conditional _ => true
  | _ => false

theorem isEnclosing_of_isLeaf {label : Label} (h : label.IsLeaf) :
    label.isEnclosing = false ∧ label.isQuantifier = false := by
  cases h with
  | plain hplain => cases hplain <;> exact ⟨rfl, rfl⟩
  | _ => exact ⟨rfl, rfl⟩

end Label

namespace Entry

/-- Two entries stand one behind the other. -/
def Apart (a b : Entry) : Prop :=
  a.stop ≤ b.start ∨ b.stop ≤ a.start

/-- An entry stands within another one. -/
def Within (a b : Entry) : Prop :=
  b.start ≤ a.start ∧ a.stop ≤ b.stop

/-- Where an entry stands in the text, and where its children stand in it. -/
structure Holds (text : Text) (entry : Entry) (below : List Entry) : Prop where
  forward : entry.start ≤ entry.stop
  bounded : entry.stop ≤ text.length
  within : ∀ child ∈ below, child.Within entry
  apart : below.Pairwise Apart
  /-- The items of a concatenation stand one behind the other. -/
  ordered : entry.label = .concat → below.Pairwise fun item later => item.stop ≤ later.start
  /-- A quantifier begins with its operand and ends behind it. -/
  repeated : entry.label.isQuantifier = true →
    ∃ operand, below = [operand] ∧ operand.start = entry.start ∧ operand.stop < entry.stop
  /-- Groups are written from one parenthesis to another. -/
  enclosed : entry.label.isEnclosing = true →
    ∃ inner, slice text entry.start entry.stop = '(' :: (inner ++ [')'])

end Entry

/-- The text from an opening parenthesis to a closing one. -/
theorem slice_of_parentheses {text : Text} {start stop : Nat} (hlt : start < stop)
    (hopening : text[start]? = some '(') (hclosing : text[stop]? = some ')') :
    slice text start (stop + 1) = '(' :: (slice text (start + 1) stop ++ [')']) := by
  obtain ⟨k, rfl⟩ := Nat.exists_eq_add_of_lt hlt
  have hfirst : text.drop start = '(' :: text.drop (start + 1) := by
    obtain ⟨hstart, hget⟩ := List.getElem?_eq_some_iff.mp hopening
    rw [List.drop_eq_getElem_cons hstart, hget]
  have hlast : (text.drop (start + 1))[k]? = some ')' := by
    rw [List.getElem?_drop, ← hclosing]
    congr 1
    omega
  have houter : start + k + 1 + 1 - start = k + 1 + 1 := by omega
  have hinner : start + k + 1 - (start + 1) = k := by omega
  rw [slice, slice, hfirst, houter, hinner, List.take_succ_cons, List.take_add_one, hlast]
  rfl

/-! ## Section 2: Nodes -/

/-- The nodes stand one behind the other between two positions. -/
structure Consecutive (lo hi : Nat) (nodes : List Node) : Prop where
  le : lo ≤ hi
  within : ∀ n ∈ nodes, lo ≤ n.start ∧ n.start ≤ n.stop ∧ n.stop ≤ hi
  ordered : nodes.Pairwise fun n later => n.stop ≤ later.start

namespace Consecutive

variable {lo mid hi : Nat} {nodes more : List Node}

theorem nil (h : lo ≤ hi) : Consecutive lo hi [] := ⟨h, nofun, .nil⟩

theorem singleton {n : Node} (hstart : n.start = lo) (hstop : n.stop = hi) (h : lo ≤ hi) :
    Consecutive lo hi [n] where
  le := h
  within := by
    refine List.forall_mem_singleton.mpr ⟨hstart.ge, ?_, hstop.le⟩
    rw [hstart, hstop]
    exact h
  ordered := List.pairwise_singleton _ _

theorem append (h : Consecutive lo mid nodes) (h' : Consecutive mid hi more) :
    Consecutive lo hi (nodes ++ more) where
  le := h.le.trans h'.le
  within := by
    refine List.forall_mem_append.mpr ⟨fun n hn => ?_, fun n hn => ?_⟩
    · obtain ⟨hstart, hforward, hstop⟩ := h.within n hn
      exact ⟨hstart, hforward, hstop.trans h'.le⟩
    · obtain ⟨hstart, hforward, hstop⟩ := h'.within n hn
      exact ⟨h.le.trans hstart, hforward, hstop⟩
  ordered := List.pairwise_append.mpr ⟨h.ordered, h'.ordered, fun n hn later hlater =>
    (h.within n hn).2.2.trans (h'.within later hlater).1⟩

/-- The last one may end elsewhere. -/
theorem init {last : Node} (h : Consecutive lo hi (nodes ++ [last])) :
    Consecutive lo last.start nodes ∧ last.start ≤ last.stop ∧ last.stop ≤ hi := by
  obtain ⟨hinit, -, hbefore⟩ := List.pairwise_append.mp h.ordered
  obtain ⟨hlo, hforward, hhi⟩ := h.within last (List.mem_append_right _ List.mem_cons_self)
  refine ⟨⟨hlo, fun n hn => ?_, hinit⟩, hforward, hhi⟩
  obtain ⟨hstart, hstop, -⟩ := h.within n (List.mem_append_left _ hn)
  exact ⟨hstart, hstop, hbefore n hn last List.mem_cons_self⟩

/-- All of them stand between the start of the first and the stop of the
    last. -/
theorem span (h : Consecutive lo hi nodes) (hsome : nodes ≠ []) :
    ∀ n ∈ nodes, (nodes.head hsome).start ≤ n.start ∧ n.stop ≤ (nodes.getLast hsome).stop := by
  intro n hn
  constructor
  · cases nodes with
    | nil => exact absurd rfl hsome
    | cons first rest =>
      rcases List.mem_cons.mp hn with rfl | hrest
      · exact Nat.le_refl _
      · exact (h.within first List.mem_cons_self).2.1.trans
          ((List.pairwise_cons.mp h.ordered).1 n hrest)
  · rw [← List.dropLast_append_getLast hsome] at h hn
    obtain ⟨hinit, hforward, -⟩ := h.init
    rcases List.mem_append.mp hn with hbefore | hlast
    · exact (hinit.within n hbefore).2.2.trans hforward
    · obtain rfl := List.mem_singleton.mp hlast
      exact Nat.le_refl _

end Consecutive

namespace Node

variable {text : Text} {n m k : Node}

/-- The node and all nodes below it hold their children where they should. -/
def IsLaidOut (text : Text) (n : Node) : Prop :=
  ∀ m ∈ n.preorder, m.entry.Holds text (m.children.map entry)

theorem IsLaidOut.here (h : n.IsLaidOut text) : n.entry.Holds text (n.children.map entry) :=
  h n n.mem_preorder_self

theorem IsLaidOut.of_mem (h : n.IsLaidOut text) (hm : m ∈ n.preorder) : m.IsLaidOut text :=
  fun k hk => h k (mem_preorder_trans hm hk)

theorem isLaidOut_build {count : Nat} {label : Label} {start stop : Nat} {children : List Node}
    (hhere : Entry.Holds text (build count label start stop children).entry (children.map entry))
    (hbelow : ∀ child ∈ children, child.IsLaidOut text) :
    (build count label start stop children).IsLaidOut text := by
  intro m hm
  rcases mem_preorder_iff.mp hm with rfl | ⟨child, hchild, hm⟩
  · exact hhere
  · exact hbelow child hchild m hm

/-- A leaf of a label that is not written within parentheses. -/
theorem isLaidOut_of_leaf (hchildren : n.children = []) (hlabel : n.label.IsLeaf)
    (hforward : n.start ≤ n.stop) (hbounded : n.stop ≤ text.length) : n.IsLaidOut text := by
  obtain ⟨henclosing, hquantifier⟩ := Label.isEnclosing_of_isLeaf hlabel
  intro m hm
  rcases mem_preorder_iff.mp hm with rfl | ⟨child, hchild, -⟩
  · rw [hchildren]
    exact {
      forward := hforward
      bounded := hbounded
      within := nofun
      apart := .nil
      ordered := fun _ => .nil
      repeated := fun h => Bool.noConfusion (hquantifier.symm.trans h)
      enclosed := fun h => Bool.noConfusion (henclosing.symm.trans h) }
  · rw [hchildren] at hchild
    exact absurd hchild List.not_mem_nil

/-- A normal item without children has the label of a leaf: all other labels
    come with some. -/
theorem IsItem.isLeaf (h : n.IsItem) (hchildren : n.children = []) : n.label.IsLeaf := by
  have hsuits := (h.normal n n.mem_preorder_self).1
  rw [hchildren] at hsuits
  generalize n.label = label at hsuits
  cases hsuits with
  | leaf hleaf => exact hleaf
  | concat hlength => exact absurd hlength (by decide)
  | alternation hlength => exact absurd hlength (by decide)
  | conditional _ hsome => exact absurd rfl hsome

/-- A quantifier that ends behind its operand. -/
theorem IsLaidOut.quantifier (h : n.IsLaidOut text) {count stop : Nat} {bounds : Bounds}
    {mode : QuantifierMode} (hend : n.stop < stop) (hbounded : stop ≤ text.length) :
    (build count (.quantifier bounds mode) n.start stop [n]).IsLaidOut text := by
  have hforward : n.start ≤ n.stop := h.here.forward
  refine isLaidOut_build ?_ (List.forall_mem_singleton.mpr h)
  exact {
    forward := hforward.trans hend.le
    bounded := hbounded
    within := List.forall_mem_singleton.mpr ⟨Nat.le_refl _, hend.le⟩
    apart := List.pairwise_singleton _ _
    ordered := fun _ => List.pairwise_singleton _ _
    repeated := fun _ => ⟨n.entry, rfl, rfl, hend⟩
    enclosed := fun henclosing => absurd henclosing Bool.false_ne_true }

/-- What stands below a node stands within it. -/
theorem IsLaidOut.within (h : n.IsLaidOut text) (hm : m ∈ n.preorder) :
    m.entry.Within n.entry := by
  induction n using induction with
  | node label mark children ih =>
    rcases mem_preorder_iff.mp hm with rfl | ⟨child, hchild, hm⟩
    · exact ⟨Nat.le_refl _, Nat.le_refl _⟩
    · obtain ⟨hstart, hstop⟩ := ih child hchild (h.of_mem (child_mem_preorder hchild)) hm
      obtain ⟨hstart', hstop'⟩ := h.here.within child.entry (List.mem_map_of_mem hchild)
      exact ⟨hstart'.trans hstart, hstop.trans hstop'⟩

instance : Std.Symm fun a b : Node => a.entry.Apart b.entry :=
  ⟨fun _ _ => Or.symm⟩

/-- Of two nodes in one tree, one stands within the other or they are
    apart: where the ways to them part, they go to two children. -/
theorem IsLaidOut.within_or_apart (h : n.IsLaidOut text) (hm : m ∈ n.preorder)
    (hk : k ∈ n.preorder) :
    m.entry.Within k.entry ∨ k.entry.Within m.entry ∨ m.entry.Apart k.entry := by
  induction n using induction with
  | node label mark children ih =>
    rcases mem_preorder_iff.mp hm with rfl | ⟨child, hchild, hm'⟩
    · exact .inr (.inl (h.within hk))
    rcases mem_preorder_iff.mp hk with rfl | ⟨other, hother, hk'⟩
    · exact .inl (h.within hm)
    have hlaid := h.of_mem (child_mem_preorder hchild)
    by_cases hsame : child = other
    · subst hsame
      exact ih child hchild hlaid hm' hk'
    · have hpairs : children.Pairwise fun a b => a.entry.Apart b.entry :=
        List.pairwise_map.mp h.here.apart
      have hapart : child.entry.Apart other.entry :=
        hpairs.forall hchild hother hsame
      obtain ⟨hstart, hstop⟩ := hlaid.within hm'
      obtain ⟨hstart', hstop'⟩ := (h.of_mem (child_mem_preorder hother)).within hk'
      refine .inr (.inr (hapart.imp (fun hle => ?_) fun hle => ?_))
      · exact hstop.trans (hle.trans hstart')
      · exact hstop'.trans (hle.trans hstart)

end Node

/-! ## Section 3: Closing -/

section Closing

open ParserState

variable {text : Text} {lo hi stop count : Nat}

/-- Some branches between two positions, each laid out and apart from the
    others. -/
structure Beside (text : Text) (lo stop : Nat) (bodies : List Node) : Prop where
  nodes : ∀ body ∈ bodies, body.IsLaidOut text
  within : ∀ body ∈ bodies, lo ≤ body.start ∧ body.stop ≤ stop
  apart : bodies.Pairwise fun body other => body.entry.Apart other.entry

/-- A branch goes from its first item to its last one; an empty branch stands
    at the end. -/
inductive Covers (stop : Nat) (items : List Node) (n : Node) : Prop where
  | empty (hitems : items = []) (hstart : n.start = stop) (hstop : n.stop = stop)
  | items (hsome : items ≠ []) (hstart : n.start = (items.head hsome).start)
      (hstop : n.stop = (items.getLast hsome).stop)

theorem covers_closeBranch (count stop : Nat) (items : List Node) :
    Covers stop items (closeBranch count stop items).1 := by
  match items with
  | [] => exact .empty rfl rfl rfl
  | [only] => exact .items (List.cons_ne_nil _ _) rfl rfl
  | first :: second :: rest =>
    refine .items (List.cons_ne_nil _ _) rfl ?_
    rw [List.getLast_cons (List.cons_ne_nil _ _), List.getLast_eq_getLastD]
    rfl

theorem Covers.stop_eq {items : List Node} {n : Node} (h : Covers stop items n)
    (hsome : items ≠ []) : n.stop = (items.getLast hsome).stop := by
  cases h with
  | empty hnone => exact absurd hnone hsome
  | items _ _ hstop => exact hstop

theorem Covers.within {items : List Node} {n : Node} (h : Covers stop items n)
    (hitems : Consecutive lo hi items) (hle : hi ≤ stop) : lo ≤ n.start ∧ n.stop ≤ stop := by
  cases h with
  | empty _ hstart hstop => exact ⟨hstart ▸ hitems.le.trans hle, hstop.le⟩
  | items hsome hstart hstop =>
    obtain ⟨hlo, -, -⟩ := hitems.within _ (List.head_mem hsome)
    obtain ⟨-, -, hhi⟩ := hitems.within _ (List.getLast_mem hsome)
    exact ⟨hstart ▸ hlo, hstop ▸ hhi.trans hle⟩

/-- Branches of which one stands behind the other are apart. -/
theorem Covers.apart {items others : List Node} {n m : Node} (h : Covers stop items n)
    (h' : Covers stop others m) (hitems : Consecutive lo hi items)
    (hothers : Consecutive lo hi others) (hle : hi ≤ stop)
    (hbehind : ∀ a ∈ items, ∀ b ∈ others, a.stop ≤ b.start) : n.entry.Apart m.entry := by
  have hn := h.within hitems hle
  have hm := h'.within hothers hle
  cases h with
  | empty _ hstart _ => exact .inr (hm.2.trans hstart.ge)
  | items hsome _ hstop =>
    cases h' with
    | empty _ hstart' _ => exact .inl (hn.2.trans hstart'.ge)
    | items hsome' hstart' _ =>
      have hle := hbehind _ (List.getLast_mem hsome) _ (List.head_mem hsome')
      exact .inl (hstop.trans_le (hle.trans hstart'.ge))

theorem isLaidOut_closeBranch {items : List Node} (hnodes : ∀ n ∈ items, n.IsLaidOut text)
    (hitems : Consecutive lo hi items) (hle : hi ≤ stop) (hstop : stop ≤ text.length) :
    (closeBranch count stop items).1.IsLaidOut text := by
  match items with
  | [] => exact Node.isLaidOut_of_leaf rfl .empty (Nat.le_refl _) hstop
  | [only] => exact hnodes only List.mem_cons_self
  | first :: second :: rest =>
    have hsome : first :: second :: rest ≠ [] := List.cons_ne_nil _ _
    have hto := (covers_closeBranch count stop (first :: second :: rest)).stop_eq hsome
    have hspan := hitems.span hsome
    obtain ⟨-, hforward, -⟩ := hitems.within first List.mem_cons_self
    obtain ⟨-, -, hend⟩ := hitems.within _ (List.getLast_mem hsome)
    refine Node.isLaidOut_build ?_ hnodes
    exact {
      forward := hforward.trans ((hspan first List.mem_cons_self).2.trans hto.ge)
      bounded := hto.trans_le (hend.trans (hle.trans hstop))
      within := List.forall_mem_map.mpr fun n hn =>
        ⟨(hspan n hn).1, (hspan n hn).2.trans hto.ge⟩
      apart := List.pairwise_map.mpr (hitems.ordered.imp Or.inl)
      ordered := fun _ => List.pairwise_map.mpr hitems.ordered
      repeated := nofun
      enclosed := nofun }

/-- The branches of a frame, closed where all of them end. -/
theorem beside_closeBranches {branches : List (List Node)}
    (hnodes : ∀ n ∈ branches.flatten, n.IsLaidOut text)
    (hitems : Consecutive lo hi branches.flatten) (hle : hi ≤ stop) (hstop : stop ≤ text.length) :
    Beside text lo stop (closeBranches count stop branches).1 := by
  have hbranch : ∀ items ∈ branches, Consecutive lo hi items := fun items hmem =>
    ⟨hitems.le, fun n hn => hitems.within n (List.mem_flatten_of_mem hmem hn),
      (List.pairwise_flatten.mp hitems.ordered).1 items hmem⟩
  have hbehind := (List.pairwise_flatten.mp hitems.ordered).2
  refine ⟨fun body hbody => ?_, fun body hbody => ?_, ?_⟩
  · obtain ⟨items, hmem, count', rfl⟩ := exists_of_mem_closeBranches hbody
    exact isLaidOut_closeBranch (fun n hn => hnodes n (List.mem_flatten_of_mem hmem hn))
      (hbranch items hmem) hle hstop
  · obtain ⟨items, hmem, count', rfl⟩ := exists_of_mem_closeBranches hbody
    exact (covers_closeBranch count' stop items).within (hbranch items hmem) hle
  · clear hnodes hitems
    induction branches generalizing count with
    | nil => exact .nil
    | cons items rest ih =>
      obtain ⟨hhead, hrest⟩ := List.forall_mem_cons.mp hbranch
      obtain ⟨hfirst, hpairs⟩ := List.pairwise_cons.mp hbehind
      refine List.pairwise_cons.mpr ⟨fun other hother => ?_, ih hrest hpairs⟩
      obtain ⟨others, hmem, count', rfl⟩ := exists_of_mem_closeBranches hother
      exact (covers_closeBranch count stop items).apart (covers_closeBranch count' stop others)
        hhead (hrest others hmem) hle (hfirst others hmem)

/-- The body over some branches is one that stands where they do. -/
theorem Beside.closeBody {bodies : List Node} (h : Beside text lo stop bodies)
    (hsome : bodies ≠ []) (hstop : stop ≤ text.length) :
    Beside text lo stop [(closeBody count bodies).1] := by
  match bodies with
  | [] => exact absurd rfl hsome
  | [only] => exact h
  | first :: second :: rest =>
    -- the alternation reaches from its first branch to its last one
    have hstart : ∀ body ∈ first :: second :: rest,
        leastStart (first :: second :: rest) ≤ body.start := le_leastStart_iff.mp (Nat.le_refl _)
    have hend : ∀ body ∈ first :: second :: rest,
        body.stop ≤ greatestStop (first :: second :: rest) :=
      greatestStop_le_iff.mp (Nat.le_refl _)
    have hlo : lo ≤ leastStart (first :: second :: rest) :=
      le_leastStart_iff.mpr fun body hbody => (h.within body hbody).1
    have hhi : greatestStop (first :: second :: rest) ≤ stop :=
      greatestStop_le_iff.mpr fun body hbody => (h.within body hbody).2
    have hforward : first.start ≤ first.stop := (h.nodes first List.mem_cons_self).here.forward
    refine ⟨List.forall_mem_singleton.mpr ?_, List.forall_mem_singleton.mpr ⟨hlo, hhi⟩,
      List.pairwise_singleton _ _⟩
    refine Node.isLaidOut_build ?_ h.nodes
    exact {
      forward := (hstart first List.mem_cons_self).trans
        (hforward.trans (hend first List.mem_cons_self))
      bounded := hhi.trans hstop
      within := List.forall_mem_map.mpr fun body hbody => ⟨hstart body hbody, hend body hbody⟩
      apart := List.pairwise_map.mpr h.apart
      ordered := nofun
      repeated := nofun
      enclosed := nofun }

/-- A node in parentheses around what stands between them. -/
theorem Beside.isLaidOut_build {bodies : List Node} {label : Label}
    (h : Beside text lo stop bodies) (hlabel : label.isEnclosing = true) (hle : lo ≤ stop)
    (hstop : stop ≤ text.length) (hwritten : ∃ inner, slice text lo stop = '(' :: (inner ++ [')'])) :
    (Node.build count label lo stop bodies).IsLaidOut text := by
  refine Node.isLaidOut_build ?_ h.nodes
  exact {
    forward := hle
    bounded := hstop
    within := List.forall_mem_map.mpr h.within
    apart := List.pairwise_map.mpr h.apart
    ordered := fun hconcat => by
      rw [show label = .concat from hconcat] at hlabel
      exact Bool.noConfusion hlabel
    repeated := fun hquantifier => by
      cases label <;> first | exact Bool.noConfusion hlabel | exact Bool.noConfusion hquantifier
    enclosed := fun _ => hwritten }

end Closing

/-! ## Section 4: Open frames -/

namespace Frame

variable {text : Text} {f f' : Frame} {hi hi' : Nat} {new : List Node}

/-- The nodes of a frame stand one behind the other up to `hi`; a frame other
    than the root starts with a parenthesis. -/
structure IsLaidOut (text : Text) (hi : Nat) (f : Frame) : Prop where
  row : Consecutive f.start hi f.nodes
  nodes : ∀ n ∈ f.nodes, n.IsLaidOut text
  opening : f.opener ≠ .root → f.start < hi ∧ text[f.start]? = some '('

/-- New nodes are appended behind the others. -/
theorem IsLaidOut.extend (h : f.IsLaidOut text hi) (hstart : f'.start = f.start)
    (hopener : f'.opener = f.opener) (hnodes : f'.nodes = f.nodes ++ new)
    (hrow : Consecutive hi hi' new) (hnew : ∀ n ∈ new, n.IsLaidOut text) :
    f'.IsLaidOut text hi' where
  row := by
    rw [hstart, hnodes]
    exact h.row.append hrow
  nodes := by
    rw [hnodes]
    exact List.forall_mem_append.mpr ⟨h.nodes, hnew⟩
  opening := by
    rw [hstart, hopener]
    exact fun hroot => (h.opening hroot).imp_left fun hlt => hlt.trans_le hrow.le

/-- A quantifier goes on behind the last node of its frame and takes its
    place. -/
theorem IsLaidOut.quantify (h : f.IsLaidOut text hi) {item : Node} {items : List Node}
    {count : Nat} {bounds : Bounds} {mode : QuantifierMode} (hitems : f.items = item :: items)
    (hlt : hi < hi') (hbounded : hi' ≤ text.length) :
    ({ f with
      items := .build count (.quantifier bounds mode) item.start hi' [item] :: items
      quantified := true } : Frame).IsLaidOut text hi' := by
  have hrow := h.row
  have hnodes := h.nodes
  rw [nodes_of_items hitems] at hrow hnodes
  obtain ⟨hbefore, hforward, hto⟩ := hrow.init
  obtain ⟨hinit, hoperand⟩ := List.forall_mem_append.mp hnodes
  have hend : item.stop < hi' := hto.trans_lt hlt
  have hquantifier : (Node.build count (.quantifier bounds mode) item.start hi'
      [item]).IsLaidOut text := (List.forall_mem_singleton.mp hoperand).quantifier hend hbounded
  refine ⟨?_, ?_, fun hroot => (h.opening hroot).imp_left fun hbegun => hbegun.trans hlt⟩
  · rw [nodes_of_items rfl]
    exact hbefore.append (.singleton rfl rfl (hforward.trans hend.le))
  · rw [nodes_of_items rfl]
    exact List.forall_mem_append.mpr ⟨hinit, List.forall_mem_singleton.mpr hquantifier⟩

/-- The bodies of the branches of a frame. -/
theorem IsLaidOut.beside (h : f.IsLaidOut text hi) (count : Nat) {stop : Nat} (hle : hi ≤ stop)
    (hstop : stop ≤ text.length) :
    Beside text f.start stop (closeBranches count stop f.branches).1 ∧
      (closeBranches count stop f.branches).1 ≠ [] := by
  refine ⟨beside_closeBranches h.nodes h.row hle hstop, ?_⟩
  rw [ne_eq, ← List.length_eq_zero_iff, length_closeBranches]
  simp [branches]

/-- The root closes into the body of the whole pattern. -/
theorem IsLaidOut.close_root (h : f.IsLaidOut text hi) (hroot : f.opener = .root)
    {count stop count' : Nat} {node : Node} (hle : hi ≤ stop) (hstop : stop ≤ text.length)
    (hclose : f.close count stop = .ok (node, count')) : node.IsLaidOut text := by
  obtain ⟨hbeside, hsome⟩ := h.beside count hle hstop
  rw [close_of_root hroot] at hclose
  obtain rfl := congrArg Prod.fst (Except.ok.inj hclose)
  exact (hbeside.closeBody hsome hstop).nodes _ List.mem_cons_self

/-- Any other frame closes into a node that goes from its start to the closing
    parenthesis. -/
theorem IsLaidOut.close (h : f.IsLaidOut text hi) (hroot : f.opener ≠ .root)
    {count count' : Nat} {node : Node} (hclosing : text[hi]? = some ')')
    (hclose : f.close count (hi + 1) = .ok (node, count')) : node.IsLaidOut text := by
  obtain ⟨hlt, hopening⟩ := h.opening hroot
  have hstop : hi + 1 ≤ text.length := (List.getElem?_eq_some_iff.mp hclosing).1
  have hwritten : ∃ inner, slice text f.start (hi + 1) = '(' :: (inner ++ [')']) :=
    ⟨_, slice_of_parentheses hlt hopening hclosing⟩
  obtain ⟨hbeside, hsome⟩ := h.beside count (Nat.le_succ hi) hstop
  have hle : f.start ≤ hi + 1 := h.row.le.trans (Nat.le_succ hi)
  cases closed_of_close hclose with
  | root hopener => exact absurd hopener hroot
  | conditional => exact hbeside.isLaidOut_build rfl hle hstop hwritten
  | lookaround | group =>
    exact (hbeside.closeBody hsome hstop).isLaidOut_build rfl hle hstop hwritten

end Frame

namespace ParserState

variable {text : Text} {s s' : ParserState} {hi : Nat} {f : Frame} {frames : List Frame}

/-- Each frame reaches up to the start of the frame in it, and the innermost
    one up to `hi`. -/
def Stacked (text : Text) : Nat → List Frame → Prop
  | _, [] => True
  | hi, f :: frames => f.IsLaidOut text hi ∧ Stacked text f.start frames

/-- The frames are laid out up to the cursor. -/
def IsLaidOut (text : Text) (s : ParserState) : Prop :=
  Stacked text s.cur.pos (s.frame :: s.outer)

namespace IsLaidOut

theorem initial (text : Text) : (ParserState.initial text).IsLaidOut text :=
  ⟨⟨.nil (Nat.le_refl _), nofun, fun hroot => absurd rfl hroot⟩, trivial⟩

/-- Nodes are appended to the current frame. -/
theorem extend (h : s.IsLaidOut text) {new : List Node} (houter : s'.outer = s.outer)
    (hstart : s'.frame.start = s.frame.start) (hopener : s'.frame.opener = s.frame.opener)
    (hnodes : s'.frame.nodes = s.frame.nodes ++ new)
    (hrow : Consecutive s.cur.pos s'.cur.pos new) (hnew : ∀ n ∈ new, n.IsLaidOut text) :
    s'.IsLaidOut text := by
  obtain ⟨hframe, hrest⟩ := h
  refine ⟨hframe.extend hstart hopener hnodes hrow hnew, ?_⟩
  rw [hstart, houter]
  exact hrest

/-- Every change keeps the layout. -/
theorem change (h : s.IsLaidOut text) (hnormal : s.IsNormal) (hnormal' : s'.IsNormal)
    (hplace : s.cur.rest = text.drop s.cur.pos) (hlt : s.cur.pos < s'.cur.pos)
    (hbounded : s'.cur.pos ≤ text.length) (hchange : Change text s s') : s'.IsLaidOut text := by
  have hhere : ∀ {c : Char}, s.cur.rest.head? = some c → text[s.cur.pos]? = some c := by
    intro c hc
    rwa [hplace, List.head?_drop] at hc
  have hempty : Consecutive s.cur.pos s'.cur.pos [] := .nil hlt.le
  cases hchange with
  | passes hstate =>
    rw [hstate] at hempty ⊢
    exact h.extend rfl rfl rfl (List.append_nil _).symm hempty (List.forall_mem_nil _)
  | @appends new modes hsome hframe houter hspans hmodes hlast hforward hordered =>
    have hnodes : s'.frame.nodes = s.frame.nodes ++ new.reverse := by
      rw [hframe]
      simp [Frame.nodes, Frame.branches]
    refine h.extend houter (by rw [hframe]) (by rw [hframe]) hnodes ⟨hlt.le, ?_, ?_⟩ ?_
    · intro n hn
      obtain ⟨-, hfrom, hto⟩ := hspans n (List.mem_reverse.mp hn)
      exact ⟨hfrom, hforward n (List.mem_reverse.mp hn), hto⟩
    · exact List.pairwise_reverse.mpr hordered
    · intro n hn
      have hmem := List.mem_reverse.mp hn
      obtain ⟨hchildren, -, hto⟩ := hspans n hmem
      have hitem := hnormal'.frame.items n (hnodes ▸ List.mem_append_right _ hn)
      exact Node.isLaidOut_of_leaf hchildren (hitem.isLeaf hchildren) (hforward n hmem)
        (hto.trans hbounded)
  | begins hframe houter =>
    refine h.extend houter (by rw [hframe]; rfl) (by rw [hframe]; rfl) ?_ hempty
      (List.forall_mem_nil _)
    rw [hframe, Frame.nodes_nextBranch, List.append_nil]
  | @opens opener hframe houter hopening =>
    unfold IsLaidOut
    rw [hframe, houter]
    exact ⟨⟨.nil hlt.le, List.forall_mem_nil _, fun _ => ⟨hlt, hhere hopening⟩⟩, h⟩
  | @closes frame outer node count houter hclose hstate hclosing hpos =>
    have hroot := (hnormal.nested_of_outer houter).1
    obtain ⟨hframe, hrest⟩ := h
    rw [houter] at hrest
    obtain ⟨haround, hrest⟩ := hrest
    rw [hpos] at hclose
    have hnode := hframe.close hroot (hhere hclosing) hclose
    -- it goes from the start of its frame to the cursor
    have hspan : Consecutive s.frame.start (s.cur.pos + 1) [node] :=
      .singleton (start_close hclose hroot).1 (stop_close hclose hroot)
        (hframe.row.le.trans (Nat.le_succ _))
    rw [hstate]
    unfold IsLaidOut
    dsimp only
    rw [hpos]
    exact ⟨haround.extend rfl rfl (Frame.nodes_push _ _) hspan
      (List.forall_mem_singleton.mpr hnode), hrest⟩
  | quantifies _ hitems _ hstate =>
    obtain ⟨hframe, hrest⟩ := h
    rw [hstate]
    exact ⟨hframe.quantify hitems hlt hbounded, hrest⟩

theorem of_runsTo (h : (ParserState.initial text).RunsTo s) : s.IsLaidOut text := by
  induction h with
  | refl => exact initial text
  | tail hruns hnext ih =>
    have hplace := (RemembersTargets.of_runsTo hruns).place
    exact ih.change (IsNormal.of_runsTo hruns) (IsNormal.of_runsTo (hruns.tail hnext)) hplace
      hnext.move.passes.2 (RunsTo.pos_le_length (hruns.tail hnext)) (hnext.change hplace)

end IsLaidOut

end ParserState

/-! ## Section 5: The table -/

/-- Every entry of the table holds its children where it should, and of any
    two entries one stands within the other or they are apart. -/
structure Arena.IsLaidOut (a : Arena) (text : Text) : Prop where
  entries : ∀ i < a.size, ∃ entry below, a.entries[i]? = some entry ∧
    entry.children.map (fun child => a.entries[child]?) = below.map some ∧ entry.Holds text below
  nested : ∀ {i j : Nat} {entry other : Entry}, a.entries[i]? = some entry → a.entries[j]? = some other →
    entry.Within other ∨ other.Within entry ∨ entry.Apart other

namespace Numbered

variable {root : Node} {count : Nat} (h : Numbered [root] count)

include h

/-- The entries of the children that a node lists. -/
theorem map_entries?_children {n : Node} (hn : n ∈ root.preorder) :
    n.entry.children.map (fun child => (Arena.ofNode root).entries[child]?) =
      (n.children.map Node.entry).map some := by
  show (n.children.map Node.index).map _ = _
  rw [List.map_map, List.map_map]
  refine List.map_congr_left fun child hchild => ?_
  exact h.entries_getElem? (Node.mem_preorder_trans hn (Node.child_mem_preorder hchild))

/-- Every entry of the table is that of a node. -/
theorem exists_of_entries {i : Nat} {entry : Entry}
    (hentry : (Arena.ofNode root).entries[i]? = some entry) :
    ∃ n ∈ root.preorder, n.index = i ∧ n.entry = entry := by
  have hi : i < (Arena.ofNode root).size := (Array.getElem?_eq_some_iff.mp hentry).1
  obtain ⟨n, hn, rfl⟩ := h.exists_of_lt (h.size_ofNode ▸ hi)
  exact ⟨n, hn, rfl, Option.some.inj ((h.entries_getElem? hn).symm.trans hentry)⟩

/-- The table of a tree that is laid out is laid out. -/
theorem isLaidOut_ofNode {text : Text} (hlaid : root.IsLaidOut text) :
    (Arena.ofNode root).IsLaidOut text where
  entries i hi := by
    obtain ⟨n, hn, rfl⟩ := h.exists_of_lt (h.size_ofNode ▸ hi)
    exact ⟨n.entry, n.children.map Node.entry, h.entries_getElem? hn, h.map_entries?_children hn,
      hlaid n hn⟩
  nested hentry hother := by
    obtain ⟨n, hn, -, rfl⟩ := h.exists_of_entries hentry
    obtain ⟨m, hm, -, rfl⟩ := h.exists_of_entries hother
    exact hlaid.within_or_apart hn hm

end Numbered

namespace Pattern

theorem isLaidOut_of_parse {text : Text} {p : Pattern} (h : parse text = .ok p) :
    p.root.IsLaidOut text := by
  obtain ⟨last, root, hruns, -, hfinish, rfl⟩ := parse_eq_ok_iff.mp h
  obtain ⟨houter, ⟨count, hclose⟩, -⟩ := ParserState.finish_eq_ok_iff.mp hfinish
  obtain ⟨hframe, -⟩ := ParserState.IsLaidOut.of_runsTo hruns
  exact hframe.close_root ((ParserState.IsNormal.of_runsTo hruns).root_of_outer houter)
    (Nat.le_refl _) hruns.pos_le_length hclose

/-- The tree of a parsed pattern lies in its text: the pieces at which the
    nodes stand nest as the nodes do, the items of a concatenation stand one
    behind the other, a quantifier goes on behind its operand, and groups,
    lookarounds and conditionals go from one parenthesis to another. -/
theorem arena_isLaidOut {text : Text} {p : Pattern} (h : parse text = .ok p) :
    p.arena.IsLaidOut text := by
  obtain ⟨count, hnumbered⟩ := numbered_of_parse h
  exact hnumbered.isLaidOut_ofNode (isLaidOut_of_parse h)

/-- The empty branch of the group stands behind its closing parenthesis. -/
theorem arena_isLaidOut_of_empty_branch :
    ∃ p, parse "(a|)*b".toList = .ok p ∧ p.arena.IsLaidOut "(a|)*b".toList ∧
      ∃ entry, p.arena.entries[1]? = some entry ∧ entry.label.kind = .empty ∧
        entry.start = 4 ∧ entry.stop = 4 := by
  have hcheck : (parse "(a|)*b".toList).toOption.any (fun p => p.root.preorder.any fun n =>
      n.index == 1 && n.kind == .empty && n.start == 4 && n.stop == 4) = true := by
    decide +kernel
  obtain ⟨p, hp, hcheck⟩ := exists_of_check hcheck
  obtain ⟨n, hn, hcheck⟩ := List.any_eq_true.mp hcheck
  simp only [Bool.and_eq_true, beq_iff_eq] at hcheck
  obtain ⟨⟨⟨hindex, hkind⟩, hstart⟩, hstop⟩ := hcheck
  obtain ⟨count, hnumbered⟩ := numbered_of_parse hp
  exact ⟨p, hp, arena_isLaidOut hp, n.entry, hindex ▸ hnumbered.entries_getElem? hn, hkind, hstart,
    hstop⟩

end Pattern

end RegexInsight
