import Mathlib
import RegexInsight.Proofs.Pattern.Stack

/-! # Spans within spans

    A node stands where it was read: behind the start of every frame that
    was open, and before the cursor.  Hence the span of a group or of a
    quantifier holds those of all explicit nodes in it, and what is repeated
    ends before its quantifier does.  Every group and every quantifier of a
    pattern was completed by one step, from which on it is the last item of
    its branch. -/

namespace RegexInsight

/-! ## Section 1: Nodes within nodes -/

/-- The explicit nodes in a node stand within its span; those that a
    quantifier repeats end before it does. -/
structure Node.Encloses (n : Node) : Prop where
  within : ∀ m ∈ n.explicit, n.start ≤ m.start ∧ m.stop ≤ n.stop
  strict : n.label.isQuantifier = true → ∀ child ∈ n.children, ∀ m ∈ child.explicit, m.stop < n.stop

theorem Node.explicit_of_leaf {n : Node} (hchildren : n.children = []) :
    ∀ m ∈ n.explicit, m = n := by
  intro m hm
  obtain ⟨label, mark, children⟩ := n
  obtain rfl : children = [] := hchildren
  have hmem := (Node.mem_explicit.mp hm).1
  rw [Node.preorder_node] at hmem
  exact List.mem_singleton.mp hmem

theorem Node.encloses_of_leaf {n : Node} (hchildren : n.children = []) : n.Encloses where
  within m hm := by
    rw [Node.explicit_of_leaf hchildren m hm]
    exact ⟨Nat.le_refl _, Nat.le_refl _⟩
  strict _ child hchild := by
    rw [hchildren] at hchild
    exact absurd hchild List.not_mem_nil

/-- An item is an explicit node of its own. -/
theorem Node.IsItem.mem_explicit {n : Node} (h : n.IsItem) : n ∈ n.explicit := by
  have hlabel := h.item
  refine Node.mem_explicit.mpr ⟨Node.mem_preorder_self n, ?_⟩
  generalize n.label = label at hlabel ⊢
  cases label <;> first | rfl | exact Bool.noConfusion hlabel

/-! ## Section 2: Nodes within frames -/

namespace Frame

variable {f : Frame} {n : Node}

theorem mem_explicit_append {new : List Node} {modes : Modes} {quantified : Bool} :
    n ∈ ({ f with
        modes := modes, items := new ++ f.items, quantified := quantified } : Frame).explicit ↔
      n ∈ f.explicit ∨ ∃ m ∈ new, n ∈ m.explicit := by
  have hnodes : ({ f with modes := modes, items := new ++ f.items, quantified := quantified } :
      Frame).nodes = f.nodes ++ new.reverse := by
    simp [nodes, branches]
  rw [explicit, hnodes, List.flatMap_append, List.mem_append]
  refine or_congr Iff.rfl ?_
  simp only [List.mem_flatMap, List.mem_reverse]

/-- The explicit nodes of an item are those of its frame. -/
theorem explicit_subset_of_items {item : Node} {items : List Node} (h : f.items = item :: items) :
    item.explicit ⊆ f.explicit := by
  rw [explicit_of_items h]
  exact List.subset_append_right _ _

end Frame

namespace ParserState

variable {text : Text} {s s' : ParserState} {n : Node}

theorem mem_explicit_iff : n ∈ s.explicit ↔ ∃ f ∈ s.frame :: s.outer, n ∈ f.explicit := by
  rw [explicit, List.mem_append, List.mem_flatMap, List.exists_mem_cons_iff]

/-- What was read stands where its frames are: behind the start of each, and
    before the cursor. -/
structure IsSpanned (s : ParserState) : Prop where
  starts : (s.frame :: s.outer).Pairwise fun inner around => around.start ≤ inner.start
  reached : s.frame.start ≤ s.cur.pos
  spans : ∀ f ∈ s.frame :: s.outer, ∀ n ∈ f.explicit, f.start ≤ n.start ∧ n.stop ≤ s.cur.pos
  encloses : ∀ n ∈ s.explicit, n.Encloses

namespace IsSpanned

theorem initial (text : Text) : (ParserState.initial text).IsSpanned where
  starts := List.pairwise_singleton _ _
  reached := Nat.le_refl _
  spans := by
    intro f hf n hn
    obtain rfl := List.mem_singleton.mp hf
    exact absurd hn List.not_mem_nil
  encloses := nofun

/-- The current frame may get more nodes that stand behind its start and
    before the cursor. -/
theorem extend (h : s.IsSpanned) (new : List Node) (houter : s'.outer = s.outer)
    (hstart : s'.frame.start = s.frame.start) (hpos : s.cur.pos ≤ s'.cur.pos)
    (hexplicit : ∀ n ∈ s'.frame.explicit, n ∈ s.frame.explicit ∨ n ∈ new)
    (hnew : ∀ n ∈ new, n.Encloses ∧ s.frame.start ≤ n.start ∧ n.stop ≤ s'.cur.pos) :
    s'.IsSpanned where
  starts := by
    rw [houter]
    have hstarts := List.pairwise_cons.mp h.starts
    refine List.pairwise_cons.mpr ⟨fun around haround => ?_, hstarts.2⟩
    rw [hstart]
    exact hstarts.1 around haround
  reached := by
    rw [hstart]
    exact Nat.le_trans h.reached hpos
  spans := by
    intro f hf n hn
    rw [houter] at hf
    -- only the current frame has got anything new
    rcases List.mem_cons.mp hf with rfl | hf
    · rw [hstart]
      rcases hexplicit n hn with hold | hmem
      · obtain ⟨hfrom, hto⟩ := h.spans s.frame List.mem_cons_self n hold
        exact ⟨hfrom, Nat.le_trans hto hpos⟩
      · exact (hnew n hmem).2
    · obtain ⟨hfrom, hto⟩ := h.spans f (List.mem_cons_of_mem _ hf) n hn
      exact ⟨hfrom, Nat.le_trans hto hpos⟩
  encloses := by
    intro n hn
    obtain ⟨f, hf, hmem⟩ := mem_explicit_iff.mp hn
    rw [houter] at hf
    rcases List.mem_cons.mp hf with rfl | hf
    · rcases hexplicit n hmem with hold | hmem
      · exact h.encloses n (mem_explicit_iff.mpr ⟨s.frame, List.mem_cons_self, hold⟩)
      · exact (hnew n hmem).1
    · exact h.encloses n (mem_explicit_iff.mpr ⟨f, List.mem_cons_of_mem _ hf, hmem⟩)

/-- Without the current frame, the one around it is the current one. -/
theorem pop (h : s.IsSpanned) {frame : Frame} {outer : List Frame}
    (houter : s.outer = frame :: outer) :
    ({ s with frame := frame, outer := outer } : ParserState).IsSpanned where
  starts := by
    have hstarts := (List.pairwise_cons.mp h.starts).2
    rwa [houter] at hstarts
  reached := by
    have hstarts := (List.pairwise_cons.mp h.starts).1
    exact Nat.le_trans (hstarts frame (houter ▸ List.mem_cons_self)) h.reached
  spans := by
    intro f hf
    exact h.spans f (List.mem_cons_of_mem _ (houter ▸ hf))
  encloses := by
    intro n hn
    obtain ⟨f, hf, hmem⟩ := mem_explicit_iff.mp hn
    exact h.encloses n (mem_explicit_iff.mpr ⟨f, List.mem_cons_of_mem _ (houter ▸ hf), hmem⟩)

/-- A frame closes into a node that encloses what was read in it. -/
theorem encloses_close (h : s.IsSpanned) {node : Node} {count stop count' : Nat}
    (hroot : s.frame.opener ≠ .root) (hclose : s.frame.close count stop = .ok (node, count'))
    (hpos : s.cur.pos ≤ stop) :
    ∀ n ∈ node.explicit, n.Encloses ∧ s.frame.start ≤ n.start ∧ n.stop ≤ stop := by
  obtain ⟨hstart, hlabel⟩ := start_close hclose hroot
  have hstop := stop_close hclose hroot
  have hinner : ∀ n ∈ s.frame.explicit, s.frame.start ≤ n.start ∧ n.stop ≤ stop := by
    intro n hn
    obtain ⟨hfrom, hto⟩ := h.spans s.frame List.mem_cons_self n hn
    exact ⟨hfrom, Nat.le_trans hto hpos⟩
  rcases Frame.explicit_close hclose with ⟨hopener, -⟩ | ⟨-, hexplicit⟩
  · exact absurd hopener hroot
  rw [hexplicit]
  intro n hn
  rcases List.mem_cons.mp hn with rfl | hmem
  · refine ⟨⟨fun m hm => ?_, fun hquantifier => ?_⟩, hstart.ge, hstop.le⟩
    · rw [hexplicit] at hm
      rcases List.mem_cons.mp hm with rfl | hm
      · exact ⟨Nat.le_refl _, Nat.le_refl _⟩
      · rw [hstart, hstop]
        exact hinner m hm
    · exact Bool.noConfusion (hquantifier.symm.trans (Opener.isQuantifier_of_label? hlabel))
  · exact ⟨h.encloses n (mem_explicit_iff.mpr ⟨s.frame, List.mem_cons_self, hmem⟩), hinner n hmem⟩

/-- A frame that is opened starts where the cursor was, and holds nothing
    yet. -/
theorem push (h : s.IsSpanned) {opener : Opener} {modes : Modes}
    (hframe : s'.frame = .opened opener s.cur.pos modes) (houter : s'.outer = s.frame :: s.outer)
    (hpos : s.cur.pos ≤ s'.cur.pos) : s'.IsSpanned where
  starts := by
    rw [hframe, houter]
    refine List.pairwise_cons.mpr ⟨fun around haround => ?_, h.starts⟩
    rcases List.mem_cons.mp haround with rfl | hmem
    · exact h.reached
    · exact Nat.le_trans ((List.pairwise_cons.mp h.starts).1 around hmem) h.reached
  reached := by
    rw [hframe]
    exact hpos
  spans := by
    intro f hf n hn
    rw [hframe, houter] at hf
    rcases List.mem_cons.mp hf with rfl | hmem
    · exact absurd hn List.not_mem_nil
    · obtain ⟨hfrom, hto⟩ := h.spans f hmem n hn
      exact ⟨hfrom, Nat.le_trans hto hpos⟩
  encloses := by
    intro n hn
    obtain ⟨f, hf, hmem⟩ := mem_explicit_iff.mp hn
    rw [hframe, houter] at hf
    rcases List.mem_cons.mp hf with rfl | hf
    · exact absurd hmem List.not_mem_nil
    · exact h.encloses n (mem_explicit_iff.mpr ⟨f, hf, hmem⟩)

/-- A quantifier over the last item encloses it, and ends behind all of it. -/
theorem encloses_quantifier (h : s.IsSpanned) {item : Node} {items : List Node} {count stop : Nat}
    {bounds : Bounds} {mode : QuantifierMode} (hitems : s.frame.items = item :: items)
    (hitem : item.IsItem) (hlt : s.cur.pos < stop) :
    (Node.build count (.quantifier bounds mode) item.start stop [item]).Encloses := by
  have hsub := Frame.explicit_subset_of_items hitems
  have hspans := h.spans s.frame List.mem_cons_self
  have hencloses := h.encloses item
    (mem_explicit_iff.mpr ⟨s.frame, List.mem_cons_self, hsub hitem.mem_explicit⟩)
  refine ⟨fun m hm => ?_, fun _ child hchild m hm => ?_⟩
  · rw [Node.explicit_build rfl, List.flatMap_singleton] at hm
    rcases List.mem_cons.mp hm with rfl | hm
    · exact ⟨Nat.le_refl _, Nat.le_refl _⟩
    · exact ⟨(hencloses.within m hm).1, Nat.le_trans (hspans m (hsub hm)).2 hlt.le⟩
  · obtain rfl := List.mem_singleton.mp hchild
    exact Nat.lt_of_le_of_lt (hspans m (hsub hm)).2 hlt

/-- Each change that moves the cursor on keeps the nodes where their frames
    are. -/
theorem change (h : s.IsSpanned) (hnormal : s.IsNormal) (hlt : s.cur.pos < s'.cur.pos)
    (hchange : Change text s s') : s'.IsSpanned := by
  cases hchange with
  | passes hstate =>
    rw [hstate]
    exact h.extend [] rfl rfl hlt.le (fun n hn => .inl hn) nofun
  | @appends new modes hsome hframe houter hspans =>
    refine h.extend (new.flatMap Node.explicit) houter (by rw [hframe]) hlt.le
      (fun n hn => ?_) (fun n hn => ?_)
    · rw [hframe] at hn
      exact (Frame.mem_explicit_append.mp hn).imp_right List.mem_flatMap.mpr
    · obtain ⟨m, hm, hmem⟩ := List.mem_flatMap.mp hn
      obtain ⟨hchildren, hstart, hstop⟩ := hspans m hm
      rw [Node.explicit_of_leaf hchildren n hmem]
      exact ⟨Node.encloses_of_leaf hchildren, Nat.le_trans h.reached hstart, hstop⟩
  | begins hframe houter =>
    refine h.extend [] houter (by rw [hframe]; rfl) hlt.le (fun n hn => ?_) nofun
    rw [hframe, Frame.explicit_nextBranch] at hn
    exact .inl hn
  | opens hframe houter => exact h.push hframe houter hlt.le
  | @closes frame outer node count houter hclose hstate =>
    have hroot := (hnormal.nested_of_outer houter).1
    have hnodes := h.encloses_close hroot hclose hlt.le
    have hstarts := (List.pairwise_cons.mp h.starts).1 frame (houter ▸ List.mem_cons_self)
    -- what the closed frame held goes to the frame around it
    rw [hstate]
    refine (h.pop houter).extend node.explicit rfl rfl hlt.le (fun n hn => ?_)
      (fun n hn => ?_)
    · exact List.mem_append.mp (Frame.explicit_push frame node ▸ hn)
    · obtain ⟨hencloses, hfrom, hto⟩ := hnodes n hn
      exact ⟨hencloses, Nat.le_trans hstarts hfrom, hto⟩
  | @quantifies bounds mode item items hfirst hitems hitem hstate =>
    have hnode : item ∈ s.frame.nodes := by
      rw [Frame.nodes_of_items hitems]
      exact List.mem_append_right _ List.mem_cons_self
    have hitem' := hnormal.frame.items item hnode
    have hstart := (h.spans s.frame List.mem_cons_self item
      (Frame.explicit_subset_of_items hitems hitem'.mem_explicit)).1
    rw [hstate]
    refine h.extend [.build s.count (.quantifier bounds mode) item.start s'.cur.pos [item]]
      rfl rfl hlt.le (fun n hn => ?_) (fun n hn => ?_)
    · -- the explicit nodes of the operand stay, one before them is new
      have hafter : (s.putQuantifier bounds mode item items s'.cur).frame.explicit =
          { s.frame with items := items }.explicit ++
            (Node.build s.count (.quantifier bounds mode) item.start s'.cur.pos [item]).explicit :=
        Frame.explicit_of_items rfl
      rw [hafter, Node.explicit_build rfl, List.flatMap_singleton] at hn
      rw [Frame.explicit_of_items hitems, List.mem_singleton]
      simp only [List.mem_append, List.mem_cons] at hn ⊢
      tauto
    · obtain rfl := List.mem_singleton.mp hn
      exact ⟨h.encloses_quantifier hitems hitem' hlt, hstart, Nat.le_refl _⟩

theorem of_runsTo (h : (ParserState.initial text).RunsTo s) : s.IsSpanned := by
  induction h with
  | refl => exact initial text
  | tail hruns hnext ih =>
    exact ih.change (IsNormal.of_runsTo hruns) hnext.move.passes.2
      (hnext.change (RemembersTargets.of_runsTo hruns).place)

end IsSpanned

/-! ## Section 3: Completed nodes -/

/-- The step from `s` to `s'` completes the node. -/
inductive Completes (s s' : ParserState) (n : Node) : Prop where
  | closes {frame : Frame} {outer : List Frame} {count : Nat} (houter : s.outer = frame :: outer)
      (hclose : s.frame.close s.count s'.cur.pos = .ok (n, count))
      (hstate : s' = { s with
        cur := s'.cur, frame := frame.push n, outer := outer, count := count })
  | quantifies {items : List Node} (hlabel : n.label.isQuantifier = true)
      (hitems : s'.frame.items = n :: items) (hstop : n.stop = s'.cur.pos)

/-- A node that a change adds is a leaf that begins where the step does or
    behind, or it is completed by the step. -/
theorem Change.mem_explicit (h : Change text s s') (hnormal : s.IsNormal) (hn : n ∈ s'.explicit) :
    n ∈ s.explicit ∨ (n.children = [] ∧ s.cur.pos ≤ n.start) ∨ Completes s s' n := by
  cases h with
  | passes hstate =>
    rw [hstate] at hn
    exact .inl hn
  | appends _ hframe houter hspans =>
    rw [explicit, hframe, houter, List.mem_append, Frame.mem_explicit_append, or_assoc] at hn
    rcases hn with hold | ⟨m, hm, hmem⟩ | houter
    · exact .inl (List.mem_append_left _ hold)
    · obtain ⟨hleaf, hstart, -⟩ := hspans m hm
      rw [Node.explicit_of_leaf hleaf n hmem]
      exact .inr (.inl ⟨hleaf, hstart⟩)
    · exact .inl (List.mem_append_right _ houter)
  | begins hframe houter =>
    rw [explicit, hframe, houter, Frame.explicit_nextBranch] at hn
    exact .inl hn
  | opens hframe houter =>
    rw [explicit, hframe, houter, Frame.explicit_opened, List.nil_append, List.flatMap_cons] at hn
    exact .inl hn
  | @closes frame outer node count houter hclose hstate =>
    have hroot := (hnormal.nested_of_outer houter).1
    rcases Frame.explicit_close hclose with ⟨hopener, -⟩ | ⟨-, hexplicit⟩
    · exact absurd hopener hroot
    -- all that the closed node holds was there before it
    by_cases heq : n = node
    · subst heq
      exact .inr (.inr (.closes houter hclose hstate))
    · left
      rw [hstate] at hn
      simp only [explicit, houter, Frame.explicit_push, hexplicit, List.flatMap_cons,
        List.mem_append, List.mem_cons] at hn ⊢
      tauto
  | @quantifies bounds mode item items hfirst hitems hitem hstate =>
    rw [hstate] at hn
    rcases (mem_explicit_putQuantifier hitems).mp hn with hold | hnew
    · exact .inl hold
    · right
      right
      subst hnew
      exact .quantifies rfl (by rw [hstate]; rfl) rfl

/-- A node with children that a change adds is completed by it. -/
theorem Change.completes (h : Change text s s') (hnormal : s.IsNormal) (hn : n ∈ s'.explicit)
    (hchildren : n.children ≠ []) : n ∈ s.explicit ∨ Completes s s' n := by
  rcases h.mem_explicit hnormal hn with hold | ⟨hleaf, -⟩ | hcompletes
  · exact .inl hold
  · exact absurd hleaf hchildren
  · exact .inr hcompletes

/-- Every node with children was completed by some step. -/
theorem exists_completes (h : (ParserState.initial text).RunsTo s) (hn : n ∈ s.explicit)
    (hchildren : n.children ≠ []) :
    ∃ t u, (ParserState.initial text).RunsTo t ∧ Next t u ∧ u.RunsTo s ∧ Completes t u n := by
  induction h with
  | refl => exact absurd hn List.not_mem_nil
  | @tail t s hruns hnext ih =>
    have hchange := hnext.change (RemembersTargets.of_runsTo hruns).place
    rcases hchange.completes (IsNormal.of_runsTo hruns) hn hchildren with hold | hcompletes
    · obtain ⟨u, v, hu, hstep, hv, hcompletes⟩ := ih hold
      exact ⟨u, v, hu, hstep, hv.tail hnext, hcompletes⟩
    · exact ⟨t, s, hruns, hnext, .refl, hcompletes⟩

end ParserState

end RegexInsight
