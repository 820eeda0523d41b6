import Mathlib
import RegexInsight.Proofs.Engine.Routing
import RegexInsight.Proofs.Pattern.ArenaTree
import RegexInsight.Proofs.Pattern.Enclosed
import RegexInsight.Proofs.Repetition.Nesting

/-! # Patterns inside a plain group

    A plain group adds one node over a pattern, which consumes what its body
    does and is none of the constructs that anything looks for.  Neither the
    table of nodes below it changes nor the profile nor the scan: what a rule
    reads off a node is not its span, and what it reads off the way up to the
    root passes over the group. -/

namespace RegexInsight

/-- A tree in a plain group, without spans. -/
def Node.inGroup (count : Nat) (n : Node) : Node :=
  .build count (.group (.nonCapturing none)) 0 0 [n.unspanned]

/-! ## Section 1: Tables -/

/-- An entry without the place in the text. -/
def Entry.unspanned (entry : Entry) : Entry :=
  { entry with start := 0, stop := 0 }

/-- A table without the places in the text. -/
def Arena.unspanned (a : Arena) : Arena :=
  ⟨a.entries.map Entry.unspanned⟩

namespace Node

theorem entry_unspanned (n : Node) : n.unspanned.entry = n.entry.unspanned := by
  have hindices : n.unspanned.children.map index = n.children.map index := by
    rw [children_unspanned, List.map_map]
    exact List.map_congr_left fun child _ => child.index_unspanned
  simp only [entry, Entry.unspanned, hindices, label_unspanned, start_unspanned, stop_unspanned,
    reach_unspanned]

theorem completed_unspanned (n : Node) : n.unspanned.completed = n.completed.map unspanned := by
  unfold completed
  rw [preorder_unspanned]
  refine (List.map_mergeSort fun a _ b _ => ?_).symm
  rw [index_unspanned, index_unspanned]

theorem indices_unspanned (n : Node) : n.unspanned.indices = n.indices := by
  unfold indices
  rw [preorder_unspanned, List.map_map]
  exact List.map_congr_left fun m _ => m.index_unspanned

end Node

theorem Arena.ofNode_unspanned (n : Node) :
    Arena.ofNode n.unspanned = (Arena.ofNode n).unspanned := by
  have hentries : (n.completed.map Node.unspanned).map Node.entry =
      (n.completed.map Node.entry).map Entry.unspanned := by
    rw [List.map_map, List.map_map]
    exact List.map_congr_left fun m _ => m.entry_unspanned
  unfold ofNode unspanned
  rw [Node.completed_unspanned, hentries, ← List.map_toArray]

namespace Numbered

variable {n : Node} {count : Nat}

theorem unspanned (h : Numbered [n] count) : Numbered [n.unspanned] count where
  perm := by
    have hperm := h.perm
    rw [List.flatMap_singleton] at hperm ⊢
    rwa [Node.indices_unspanned]
  ascending := by
    intro other hother
    obtain rfl := List.mem_singleton.mp hother
    intro m' hm' child' hchild'
    rw [Node.preorder_unspanned] at hm'
    obtain ⟨m, hm, rfl⟩ := List.mem_map.mp hm'
    rw [Node.children_unspanned] at hchild'
    obtain ⟨child, hchild, rfl⟩ := List.mem_map.mp hchild'
    rw [Node.index_unspanned, Node.index_unspanned]
    exact h.root_ascending m hm child hchild

/-- A node over a whole tree comes last. -/
theorem completed_build (h : Numbered [n] count) (label : Label) (start stop : Nat) :
    (Node.build count label start stop [n]).completed =
      n.completed ++ [.build count label start stop [n]] := by
  have hover : Numbered [.build count label start stop [n]] (count + 1) :=
    Numbered.build [n] (show Numbered ([n] ++ []) count from h) label start stop
  have hlength : n.completed.length = count := by
    rw [← List.length_map (f := Node.index), h.map_index_completed, List.length_range]
  -- in both tables a node stands at its number
  refine List.ext_getElem? fun i => Option.ext fun m => ?_
  rw [hover.completed_getElem?, Node.preorder_build, List.flatMap_singleton, List.mem_cons,
    List.getElem?_append, hlength]
  split
  next hlt =>
    rw [h.completed_getElem?]
    refine and_congr_left fun hindex => or_iff_right fun hm => ?_
    have hcount : m.index = count := by rw [hm]; rfl
    omega
  next hle =>
    have hbelow : m ∈ n.preorder → m.index ≠ i := by
      intro hm heq
      have hlt := h.index_lt hm
      omega
    rw [List.getElem?_singleton]
    constructor
    · intro hm
      obtain ⟨rfl | hm, rfl⟩ := hm
      · have hcount : (Node.build count label start stop [n]).index = count := rfl
        rw [hcount, Nat.sub_self, if_pos rfl]
      · exact absurd rfl (hbelow hm)
    · intro hm
      split at hm
      next hzero =>
        obtain rfl := Option.some.inj hm
        exact ⟨.inl rfl, show count = i by omega⟩
      next => simp at hm

end Numbered

/-! ## Section 2: Visits -/

/-- A step down without the places in the text. -/
def Step.unspanned (step : Step) : Step :=
  ⟨step.parent.unspanned, step.before.map Node.unspanned, step.after.map Node.unspanned⟩

/-- A visit without the places in the text, on a way that begins with some
    steps more. -/
def Visit.behind (steps : List Step) (v : Visit) : Visit :=
  ⟨v.node.unspanned, v.path.map Step.unspanned ++ steps⟩

/-- The step from a plain group to the tree in it. -/
def Node.stepInGroup (count : Nat) (n : Node) : Step :=
  ⟨n.inGroup count, [], []⟩

section Visits

variable (steps : List Step)

theorem visitsFrom_unspanned (n : Node) (path : List Step) :
    n.unspanned.visitsFrom (path.map Step.unspanned ++ steps) =
      (n.visitsFrom path).map (Visit.behind steps) := by
  induction n using Node.induction generalizing path with
  | node label mark children ih =>
    -- the visits from some child on
    have hof : ∀ parent before rest, (∀ child ∈ rest, child ∈ children) →
        Node.visitsOf parent.unspanned (path.map Step.unspanned ++ steps)
            (before.map Node.unspanned) (rest.map Node.unspanned) =
          (Node.visitsOf parent path before rest).map (Visit.behind steps) := by
      intro parent before rest
      induction rest generalizing before with
      | nil => intro _; rfl
      | cons child rest ihrest =>
        intro hsub
        have hchild := ih child (hsub child List.mem_cons_self) (⟨parent, before, rest⟩ :: path)
        have hrest := ihrest (child :: before) fun m hm => hsub m (List.mem_cons_of_mem child hm)
        rw [List.map_cons, Node.visitsOf, Node.visitsOf, List.map_append, ← hrest, ← hchild]
        rfl
    have hall := hof (.node label mark children) [] children fun _ hchild => hchild
    rw [Node.unspanned_node] at hall ⊢
    rw [Node.visitsFrom, Node.visitsFrom, List.map_cons, ← hall, Visit.behind, Node.unspanned_node]
    rfl

/-! ## Section 3: The scan -/

def RiskSite.behind (site : RiskSite) : RiskSite :=
  { site with quantifier := site.quantifier.behind steps, cause := site.cause.behind steps }

def Enclosing.behind (e : Enclosing) : Enclosing :=
  { e with quantifier := e.quantifier.behind steps }

def RepetitionScan.behind (scan : RepetitionScan) : RepetitionScan :=
  { scan with sites := scan.sites.map (RiskSite.behind steps) }

end Visits

theorem firstOfSiblings_unspanned (nodes : List Node) :
    firstOfSiblings (nodes.map Node.unspanned) = firstOfSiblings nodes := by
  induction nodes with
  | nil => rfl
  | cons n rest ih =>
    simp only [firstOfSiblings, List.map_cons, Node.minWidth_unspanned, Node.first_unspanned, ih]

theorem followInBody_behind {steps : List Step} (hsteps : followInBody steps = .empty)
    (path : List Step) : followInBody (path.map Step.unspanned ++ steps) = followInBody path := by
  induction path with
  | nil => exact hsteps
  | cons step up ih =>
    have hrepeating := step.parent.isRepeating_unspanned
    have hfirst := step.parent.first_unspanned
    have hkind := step.parent.kind_unspanned
    simp only [List.map_cons, List.cons_append, followInBody, Step.unspanned, hrepeating, hfirst,
      hkind, firstOfSiblings_unspanned, ih]

theorem literalText?_unspanned (n : Node) : literalText? n.unspanned = literalText? n := by
  induction n using Node.induction with
  | node label mark children ih =>
    have hall : literalTexts? (children.map Node.unspanned) = literalTexts? children := by
      induction children with
      | nil => rfl
      | cons child rest ihrest =>
        rw [List.map_cons, literalTexts?, literalTexts?, ih child List.mem_cons_self,
          ihrest fun m hm => ih m (List.mem_cons_of_mem child hm)]
    rw [Node.unspanned_node]
    cases label with
    | concat => exact hall
    | group kind => simp only [literalText?, hall]
    | _ => rfl

theorem branchPairOverlaps_unspanned (left right : Node) :
    branchPairOverlaps left.unspanned right.unspanned = branchPairOverlaps left right := by
  simp only [branchPairOverlaps, literalText?_unspanned, Node.first_unspanned]

theorem branchesOverlap_unspanned (nodes : List Node) :
    branchesOverlap (nodes.map Node.unspanned) = branchesOverlap nodes := by
  induction nodes with
  | nil => rfl
  | cons left rest ih =>
    have hpairs : (rest.map Node.unspanned).any (branchPairOverlaps left.unspanned) =
        rest.any (branchPairOverlaps left) := by
      rw [List.any_map]
      exact congrArg rest.any (funext fun right => branchPairOverlaps_unspanned left right)
    simp only [branchesOverlap, List.map_cons, Node.minWidth_unspanned, hpairs, ih]

section Scan

variable {steps : List Step}

/-- At a node the same is found, and the same goes on to its children. -/
theorem scanHere_behind (hsteps : followInBody steps = .empty) (enclosing : Option Enclosing)
    (v : Visit) :
    scanHere (enclosing.map (Enclosing.behind steps)) (v.behind steps) =
      ((scanHere enclosing v).1.behind steps,
        (scanHere enclosing v).2.map (Enclosing.behind steps)) := by
  -- nothing that is looked at has a place in the text
  have hlabel : (v.behind steps).node.label = v.node.label := v.node.label_unspanned
  have hrepeating : (v.behind steps).node.isRepeating = v.node.isRepeating :=
    v.node.isRepeating_unspanned
  have hkind : (v.behind steps).node.kind = v.node.kind := v.node.kind_unspanned
  have hoverlap : branchesOverlap (v.behind steps).node.children =
      branchesOverlap v.node.children := by
    rw [← branchesOverlap_unspanned v.node.children, ← Node.children_unspanned]
    rfl
  have hnested : nestedIn? (enclosing.map (Enclosing.behind steps)) (v.behind steps) =
      (nestedIn? enclosing v).map (Enclosing.behind steps) := by
    have hchars : (v.behind steps).node.chars = v.node.chars := v.node.chars_unspanned
    have hfollow : followInBody (v.behind steps).path = followInBody v.path :=
      followInBody_behind hsteps v.path
    unfold nestedIn?
    cases enclosing with
    | none => rfl
    | some e =>
      rw [Option.map_some, hlabel, hchars, hfollow]
      dsimp only [Enclosing.behind]
      split <;> rfl
  unfold scanHere
  rw [hrepeating, hnested, hlabel, hkind, hoverlap]
  split_ifs with hrepeats hatomic halternation
  · cases nestedIn? enclosing v <;> rfl
  · cases enclosing <;> rfl
  · cases enclosing with
    | none => rfl
    | some e =>
      rw [Option.map_some]
      dsimp only [Enclosing.behind]
      split <;> rfl
  · rfl

theorem RepetitionScan.behind_append (a b : RepetitionScan) :
    (a.append b).behind steps = (a.behind steps).append (b.behind steps) := by
  simp only [RepetitionScan.behind, append, List.map_append]

theorem scanFrom_behind (hsteps : followInBody steps = .empty) (n : Node) (path : List Step)
    (enclosing : Option Enclosing) :
    scanFrom (path.map Step.unspanned ++ steps) (enclosing.map (Enclosing.behind steps))
      n.unspanned = (scanFrom path enclosing n).behind steps := by
  induction n using Node.induction generalizing path enclosing with
  | node label mark children ih =>
    -- the scan from some child on
    have hof : ∀ parent before rest (inner : Option Enclosing),
        (∀ child ∈ rest, child ∈ children) →
        scanChildren parent.unspanned (path.map Step.unspanned ++ steps)
            (inner.map (Enclosing.behind steps)) (before.map Node.unspanned)
            (rest.map Node.unspanned) =
          (scanChildren parent path inner before rest).behind steps := by
      intro parent before rest inner
      induction rest generalizing before with
      | nil => intro _; rfl
      | cons child rest ihrest =>
        intro hsub
        have hchild :=
          ih child (hsub child List.mem_cons_self) (⟨parent, before, rest⟩ :: path) inner
        have hrest := ihrest (child :: before) fun m hm => hsub m (List.mem_cons_of_mem child hm)
        rw [List.map_cons, scanChildren, scanChildren, RepetitionScan.behind_append, ← hrest,
          ← hchild]
        rfl
    have hhere := scanHere_behind hsteps enclosing ⟨.node label mark children, path⟩
    have hall := hof (.node label mark children) [] children
      (scanHere enclosing ⟨.node label mark children, path⟩).2 fun _ hchild => hchild
    rw [Visit.behind] at hhere
    rw [Node.unspanned_node] at hhere hall ⊢
    rw [scanFrom, scanFrom, hhere, RepetitionScan.behind_append, ← hall]
    rfl

end Scan

/-- What is reported of a site: its places by the numbers of their nodes. -/
def RiskSite.numbers (site : RiskSite) : RiskKind × Nat × Nat × Nat :=
  (site.kind, site.quantifier.node.index, site.cause.node.index, site.depth)

/-- What is reported of a scan. -/
def RepetitionScan.numbers (scan : RepetitionScan) :
    Nat × Bool × List (RiskKind × Nat × Nat × Nat) :=
  (scan.depth, scan.overlapping, scan.sites.map RiskSite.numbers)

theorem RepetitionScan.numbers_behind (steps : List Step) (scan : RepetitionScan) :
    (scan.behind steps).numbers = scan.numbers := by
  have hsites : (scan.sites.map (RiskSite.behind steps)).map RiskSite.numbers =
      scan.sites.map RiskSite.numbers := by
    rw [List.map_map]
    refine List.map_congr_left fun site _ => ?_
    simp [RiskSite.numbers, RiskSite.behind, Visit.behind]
  simp only [numbers, behind, hsites]

section InGroup

variable {n m : Node} {count : Nat}

theorem scanRepetition_inGroup (n : Node) (count : Nat) :
    scanRepetition (n.inGroup count) = (scanRepetition n).behind [n.stepInGroup count] := by
  have hempty : followInBody [n.stepInGroup count] = .empty := rfl
  have hbelow := scanFrom_behind hempty n [] none
  -- nothing is found at the group, and nothing beside the tree in it
  have hgroup : scanFrom [] none (n.inGroup count) =
      RepetitionScan.none.append ((scanFrom [n.stepInGroup count] none n.unspanned).append .none) :=
    rfl
  rw [RepetitionScan.none_append, RepetitionScan.append_none] at hgroup
  exact hgroup.trans hbelow

/-- In a plain group the same is found, at the same nodes. -/
theorem numbers_scanRepetition (h : m.unspanned = n.inGroup count) :
    (scanRepetition m).numbers = (scanRepetition n).numbers := by
  have hempty : followInBody [] = .empty := rfl
  have hself : scanRepetition m.unspanned = (scanRepetition m).behind [] :=
    scanFrom_behind hempty m [] none
  rw [← RepetitionScan.numbers_behind [], ← hself, h, scanRepetition_inGroup,
    RepetitionScan.numbers_behind]

/-! ## Section 4: The profile -/

theorem visits_inGroup (n : Node) (count : Nat) :
    (n.inGroup count).visits =
      ⟨n.inGroup count, []⟩ :: n.visits.map (Visit.behind [n.stepInGroup count]) := by
  have hbelow := visitsFrom_unspanned [n.stepInGroup count] n []
  have hgroup : (n.inGroup count).visits = ⟨n.inGroup count, []⟩ ::
      (n.unspanned.visitsFrom [n.stepInGroup count] ++ []) := rfl
  rw [hgroup, List.append_nil]
  exact congrArg _ hbelow

/-- What is looked for at a visit is found in the group if it is found outside:
    the group is not such a place, and does not make one. -/
theorem any_visits_inGroup (h : m.unspanned = n.inGroup count) {f : Visit → Bool}
    (hspans : ∀ v, f (v.behind []) = f v) (hbelow : ∀ v, f (v.behind [n.stepInGroup count]) = f v)
    (hgroup : f ⟨n.inGroup count, []⟩ = false) : m.visits.any f = n.visits.any f := by
  have hself : m.unspanned.visits = m.visits.map (Visit.behind []) := visitsFrom_unspanned [] m []
  calc m.visits.any f = (m.visits.map (Visit.behind [])).any f := by
        rw [List.any_map]
        exact congrArg m.visits.any (funext fun v => (hspans v).symm)
    _ = (n.inGroup count).visits.any f := by rw [← hself, h]
    _ = (n.visits.map (Visit.behind [n.stepInGroup count])).any f := by
        rw [visits_inGroup, List.any_cons, hgroup, Bool.false_or]
    _ = n.visits.any f := by
        rw [List.any_map]
        exact congrArg n.visits.any (funext hbelow)

theorem any_nodes_inGroup (h : m.unspanned = n.inGroup count) {f : Node → Bool}
    (hspans : ∀ other, f other.unspanned = f other) (hgroup : f (n.inGroup count) = false) :
    (m.visits.map Visit.node).any f = (n.visits.map Visit.node).any f := by
  rw [List.any_map, List.any_map]
  exact any_visits_inGroup h (fun v => hspans v.node) (fun v => hspans v.node) hgroup

theorem spellings_eq (h : m.unspanned = n.inGroup count) :
    (m.visits.map Visit.node).filterMap spelling? =
      (n.visits.map Visit.node).filterMap spelling? := by
  have hspans : ∀ nodes : List Node,
      (nodes.map Node.unspanned).filterMap spelling? = nodes.filterMap spelling? := by
    intro nodes
    rw [List.filterMap_map]
    refine List.filterMap_congr fun other _ => ?_
    simp only [Function.comp_apply, spelling?, Node.label_unspanned]
  have hgroup : (n.inGroup count).preorder = n.inGroup count :: n.preorder.map Node.unspanned := by
    rw [Node.inGroup, Node.preorder_build, List.flatMap_singleton, Node.preorder_unspanned]
  show m.preorder.filterMap spelling? = n.preorder.filterMap spelling?
  rw [← hspans m.preorder, ← Node.preorder_unspanned, h, hgroup, List.filterMap_cons_none rfl,
    hspans]

theorem ancestors_behind (steps : List Step) (v : Visit) :
    (v.behind steps).ancestors = v.ancestors.map Node.unspanned ++ steps.map Step.parent := by
  simp only [Visit.ancestors, Visit.behind, List.map_append, List.map_map]
  rfl

theorem any_ancestors_behind {f : Node → Bool} (hspans : ∀ other, f other.unspanned = f other)
    {steps : List Step} (hsteps : ∀ step ∈ steps, f step.parent = false) (v : Visit) :
    (v.behind steps).ancestors.any f = v.ancestors.any f := by
  have hnone : (steps.map Step.parent).any f = false := by
    rw [List.any_map]
    exact List.any_eq_false.mpr fun step hstep => by simp [hsteps step hstep]
  rw [ancestors_behind, List.any_append, hnone, Bool.or_false, List.any_map]
  exact congrArg v.ancestors.any (funext hspans)

theorem nestedUnderLookahead_cons (a : Node) (rest : List Node) :
    nestedUnderLookahead (a :: rest) =
      if a.isRepeating then rest.any fun b => b.label.isLookahead
      else nestedUnderLookahead rest := by
  simp only [nestedUnderLookahead, List.dropWhile_cons]
  cases a.isRepeating <;> rfl

theorem nestedUnderLookahead_unspanned (ancestors above : List Node)
    (habove : ∀ a ∈ above, a.isRepeating = false ∧ a.label.isLookahead = false) :
    nestedUnderLookahead (ancestors.map Node.unspanned ++ above) =
      nestedUnderLookahead ancestors := by
  induction ancestors with
  | nil =>
    have hnone : (above.dropWhile fun a => !a.isRepeating) = [] :=
      List.dropWhile_eq_nil_iff.mpr fun a ha => by simp [(habove a ha).1]
    rw [List.map_nil, List.nil_append, nestedUnderLookahead, hnone]
    rfl
  | cons a rest ih =>
    have hany : ((rest.map Node.unspanned ++ above).any fun b => b.label.isLookahead) =
        rest.any fun b => b.label.isLookahead := by
      have hnone : (above.any fun b => b.label.isLookahead) = false :=
        List.any_eq_false.mpr fun b hb => by simp [(habove b hb).2]
      rw [List.any_append, hnone, Bool.or_false, List.any_map]
      simp only [Function.comp_def, Node.label_unspanned]
    rw [List.map_cons, List.cons_append, nestedUnderLookahead_cons, nestedUnderLookahead_cons,
      Node.isRepeating_unspanned, hany, ih]

/-- A lookaround is looked for above a back-reference, and the group is none. -/
theorem any_inLookaround_inGroup (h : m.unspanned = n.inGroup count) :
    (m.visits.any fun v => v.node.kind = .backreference &&
        v.ancestors.any fun a => a.kind = .lookaround) =
      n.visits.any fun v => v.node.kind = .backreference &&
        v.ancestors.any fun a => a.kind = .lookaround := by
  -- steps up to a group add no lookaround to the ancestors
  have hbehind : ∀ steps : List Step, (∀ step ∈ steps, step.parent.kind = .group) →
      ∀ v : Visit, ((v.behind steps).node.kind = .backreference &&
          (v.behind steps).ancestors.any fun a => a.kind = .lookaround) =
        (v.node.kind = .backreference && v.ancestors.any fun a => a.kind = .lookaround) := by
    intro steps hsteps v
    have hkind : (v.behind steps).node.kind = v.node.kind := v.node.kind_unspanned
    have hspans : ∀ other : Node, decide (other.unspanned.kind = .lookaround) =
        decide (other.kind = .lookaround) := by
      intro other
      rw [other.kind_unspanned]
    have habove : ∀ step ∈ steps, decide (step.parent.kind = .lookaround) = false := by
      intro step hstep
      rw [hsteps step hstep]
      rfl
    rw [hkind, any_ancestors_behind hspans habove]
  refine any_visits_inGroup h (hbehind [] ?_) (hbehind [n.stepInGroup count] ?_) rfl
  · intro step hstep
    exact absurd hstep List.not_mem_nil
  · intro step hstep
    rw [List.mem_singleton.mp hstep]
    rfl

/-- A repetition and a lookahead are looked for above a repetition. -/
theorem any_underLookahead_inGroup (h : m.unspanned = n.inGroup count) :
    (m.visits.any fun v => v.node.isRepeating && nestedUnderLookahead v.ancestors) =
      n.visits.any fun v => v.node.isRepeating && nestedUnderLookahead v.ancestors := by
  have hbehind : ∀ steps : List Step,
      (∀ step ∈ steps, step.parent.isRepeating = false ∧ step.parent.label.isLookahead = false) →
      ∀ v : Visit,
        ((v.behind steps).node.isRepeating && nestedUnderLookahead (v.behind steps).ancestors) =
          (v.node.isRepeating && nestedUnderLookahead v.ancestors) := by
    intro steps hsteps v
    have hrepeating : (v.behind steps).node.isRepeating = v.node.isRepeating :=
      v.node.isRepeating_unspanned
    have habove : ∀ a ∈ steps.map Step.parent, a.isRepeating = false ∧
        a.label.isLookahead = false := by
      intro a ha
      obtain ⟨step, hstep, rfl⟩ := List.mem_map.mp ha
      exact hsteps step hstep
    rw [hrepeating, ancestors_behind, nestedUnderLookahead_unspanned _ _ habove]
  refine any_visits_inGroup h (hbehind [] ?_) (hbehind [n.stepInGroup count] ?_) rfl
  · intro step hstep
    exact absurd hstep List.not_mem_nil
  · intro step hstep
    rw [List.mem_singleton.mp hstep]
    exact ⟨rfl, rfl⟩

/-- In a plain group a tree has the same profile. -/
theorem FeatureProfile.ofNode_inGroup (h : m.unspanned = n.inGroup count) :
    FeatureProfile.ofNode m = FeatureProfile.ofNode n := by
  -- most features ask whether some node has a label that no plain group has
  have hlabel : ∀ f : Label → Bool, f (.group (.nonCapturing none)) = false →
      ((m.visits.map Visit.node).any fun other => f other.label) =
        (n.visits.map Visit.node).any fun other => f other.label := by
    intro f hgroup
    exact any_nodes_inGroup h (fun other => by rw [other.label_unspanned]) hgroup
  have hkind : ∀ kind : NodeKind, .group ≠ kind →
      ((m.visits.map Visit.node).any fun other => other.kind = kind) =
        (n.visits.map Visit.node).any fun other => other.kind = kind := by
    intro kind hgroup
    exact hlabel (fun label => label.kind = kind) (decide_eq_false hgroup)
  have hvariable : ∀ other : Node,
      isVariableLookbehind other.unspanned = isVariableLookbehind other := by
    intro other
    simp only [isVariableLookbehind, Node.label_unspanned, Node.children_unspanned, List.any_map,
      Function.comp_def, Node.reach_unspanned]
  have hproperty : ∀ other : Node, isUnicodeProperty other.unspanned = isUnicodeProperty other := by
    intro other
    simp only [isUnicodeProperty, Node.label_unspanned]
  have hposix : ∀ other : Node, isPosixClass other.unspanned = isPosixClass other := by
    intro other
    simp only [isPosixClass, Node.label_unspanned]
  have hflags : ∀ other : Node, hasFlagText other.unspanned = hasFlagText other := by
    intro other
    simp only [hasFlagText, Node.label_unspanned]
  obtain ⟨hdepth, hoverlapping, -⟩ : (scanRepetition m).depth = (scanRepetition n).depth ∧
      (scanRepetition m).overlapping = (scanRepetition n).overlapping ∧ _ := by
    simpa only [RepetitionScan.numbers, Prod.mk.injEq] using numbers_scanRepetition h
  unfold FeatureProfile.ofNode
  dsimp only
  rw [hlabel Label.isLookahead rfl, hlabel Label.isLookbehind rfl,
    any_nodes_inGroup h hvariable rfl, hkind .backreference (by decide),
    any_inLookaround_inGroup h, spellings_eq h, hkind .conditional (by decide),
    hlabel Label.isAtomicGroup rfl, hlabel Label.isPossessive rfl,
    any_nodes_inGroup h hproperty rfl, any_underLookahead_inGroup h, hdepth, hoverlapping,
    hkind .recursion (by decide), any_nodes_inGroup h hposix rfl, any_nodes_inGroup h hflags rfl]

end InGroup

/-! ## Section 5: Patterns -/

theorem Node.reach_inGroup (n : Node) (count : Nat) : (n.inGroup count).reach = n.reach := by
  show Label.reach (.group (.nonCapturing none)) [n.unspanned.reach] = n.reach
  rw [n.reach_unspanned]
  rfl

namespace Numbered

variable {n m : Node} {count size : Nat}

/-- The group is numbered after the nodes of the tree in it. -/
theorem count_of_inGroup (h : Numbered [n] count) (hm : Numbered [m] size)
    {number : Nat} (hgroup : m.unspanned = n.inGroup number) : number = count := by
  have hindex : m.index = number := by
    rw [← m.index_unspanned, hgroup]
    rfl
  have hindices : m.indices = number :: n.indices := by
    rw [← m.indices_unspanned, hgroup, Node.inGroup, Node.indices_build, List.flatMap_singleton,
      Node.indices_unspanned]
  -- there is one number more than in the tree, and the group has the last one
  have hlength := hm.perm_range.length_eq
  rw [hindices, List.length_cons, List.length_range, h.perm_range.length_eq, List.length_range]
    at hlength
  have hlast := hm.root_index
  omega

/-- The table of a tree in a plain group has one entry more. -/
theorem entries_inGroup (h : Numbered [n] count) :
    (Arena.ofNode (n.inGroup count)).entries = (Arena.ofNode n).unspanned.entries.push
      ⟨.group (.nonCapturing none), 0, 0, n.reach, [(Arena.ofNode n).root]⟩ := by
  have hentry : (n.inGroup count).entry =
      ⟨.group (.nonCapturing none), 0, 0, n.reach, [(Arena.ofNode n).root]⟩ := by
    have hindices : (n.inGroup count).children.map Node.index = [n.index] :=
      congrArg (fun index => [index]) n.index_unspanned
    rw [Node.entry, hindices, Node.reach_inGroup, h.root_ofNode]
    rfl
  have hcompleted : (n.inGroup count).completed = n.unspanned.completed ++ [n.inGroup count] :=
    h.unspanned.completed_build _ _ _
  rw [← Arena.ofNode_unspanned, ← hentry]
  simp only [Arena.ofNode, hcompleted, List.map_append, List.map_singleton, List.push_toArray]

end Numbered

namespace Pattern

variable {text : Text} {p : Pattern}

/-- In a plain group a pattern is read as before: the table of nodes has the
    group as one entry more, over the root, and everything that is told of the
    pattern stays the same. -/
theorem parse_inGroup (hparse : parse text = .ok p) (hquote : ¬ ParserState.ComesToQuote text)
    (hflags : ∀ n ∈ p.root.preorder, n.label.mentionsFlag 'x' = false) :
    ∃ q, parse ("(?:".toList ++ text ++ ")".toList) = .ok q ∧
      q.arena.unspanned.entries = p.arena.unspanned.entries.push
        ⟨.group (.nonCapturing none), 0, 0, p.root.reach, [p.arena.root]⟩ ∧
      q.arena.root = p.arena.size ∧
      q.groupCount = p.groupCount ∧ q.groupNames = p.groupNames ∧
      q.profile = p.profile ∧ q.select = p.select ∧
      (scanRepetition q.root).numbers = (scanRepetition p.root).numbers := by
  obtain ⟨q, count, hq, hroot, hcount, hnames⟩ := exists_parse_inGroup hparse hquote hflags
  -- nodes are numbered bottom up, so that the group comes last
  obtain ⟨size, hnumbered⟩ := numbered_of_parse hparse
  obtain ⟨size', hnumbered'⟩ := numbered_of_parse hq
  obtain rfl := hnumbered.count_of_inGroup hnumbered' hroot
  have hentries : q.arena.unspanned.entries = p.arena.unspanned.entries.push
      ⟨.group (.nonCapturing none), 0, 0, p.root.reach, [p.arena.root]⟩ := by
    show (Arena.ofNode q.root).unspanned.entries = _
    rw [← Arena.ofNode_unspanned, hroot]
    exact hnumbered.entries_inGroup
  have hlast : q.arena.root = p.arena.size := by
    have hindex : q.root.index = count := by
      rw [← q.root.index_unspanned, hroot]
      rfl
    exact hnumbered'.root_ofNode.trans (hindex.trans hnumbered.size_ofNode.symm)
  have hprofile : q.profile = p.profile := FeatureProfile.ofNode_inGroup hroot
  have hselect : q.select = p.select := by
    rw [select_eq_ok, select_eq_ok, hprofile]
  exact ⟨q, hq, hentries, hlast, hcount, hnames, hprofile, hselect, numbers_scanRepetition hroot⟩

/-- An empty branch and a nested repetition stay what they are in the group. -/
theorem parse_inGroup_of_nested :
    ∃ p q, parse "(?s)(a+)+\\1|".toList = .ok p ∧ parse "(?:(?s)(a+)+\\1|)".toList = .ok q ∧
      p.arena.size = 9 ∧ q.arena.root = 9 ∧ q.profile = p.profile ∧
      (scanRepetition q.root).numbers = (2, false, [(.nestedQuantifier, 4, 2, 2)]) := by
  have hcheck : (parse "(?s)(a+)+\\1|".toList).toOption.any (fun p =>
      p.root.preorder.all (fun n => !n.label.mentionsFlag 'x') && p.root.index == 8 &&
        (scanRepetition p.root).numbers == (2, false, [(.nestedQuantifier, 4, 2, 2)])) = true := by
    decide +kernel
  obtain ⟨p, hp, hcheck⟩ := exists_of_check hcheck
  simp only [Bool.and_eq_true, List.all_eq_true, Bool.not_eq_true', beq_iff_eq] at hcheck
  obtain ⟨⟨hflags, hindex⟩, hnumbers⟩ := hcheck
  have hquote : ¬ HasPair '\\' 'Q' "(?s)(a+)+\\1|".toList :=
    Cursor.beforePair?_eq_none_iff.mp (by decide)
  obtain ⟨q, hq, -, hroot, -, -, hprofile, -, hscan⟩ :=
    parse_inGroup hp (ParserState.not_comesToQuote hquote) hflags
  have hsize : p.arena.size = 9 := by
    obtain ⟨count, hnumbered⟩ := numbered_of_parse hp
    exact hnumbered.size_ofNode.trans (hnumbered.root_index.symm.trans (congrArg (· + 1) hindex))
  exact ⟨p, q, hp, hq, hsize, hroot.trans hsize, hprofile, hscan.trans hnumbers⟩

end Pattern

end RegexInsight
