import Mathlib
import RegexInsight.Proofs.Pattern.ArenaTree
import RegexInsight.Proofs.Repetition.Nesting
import RegexInsight.Repetition.Worklist

/-! # The stack of a scan

    Scanning with a stack and a table of depths finds what the recursive
    scan finds.  The invariant of a run is that every node waits below one
    place of the stack only, and that no quantifier named by a waiting
    place is itself below a place: what is noted later leaves the depths
    of the waiting places as they are. -/

namespace RegexInsight

/-! ## Section 1: One step -/

theorem scanChildren_eq (v : Visit) (inner : Option Enclosing) (before rest : List Node) :
    scanChildren v.node v.path inner before rest =
      .ofAll ((v.childrenFrom before rest).map fun child =>
        scanFrom child.path inner child.node) := by
  induction rest generalizing before with
  | nil => rfl
  | cons child after ih =>
    simp only [scanChildren, Visit.childrenFrom, List.map_cons]
    rw [ih]
    rfl

theorem scanFrom_eq (v : Visit) (enclosing : Option Enclosing) :
    scanFrom v.path enclosing v.node =
      (scanHere enclosing v).1.append (.ofAll (v.children.map fun child =>
        scanFrom child.path (scanHere enclosing v).2 child.node)) := by
  obtain ⟨⟨label, mark, children⟩, path⟩ := v
  have hchildren := scanChildren_eq ⟨.node label mark children, path⟩
    (scanHere enclosing ⟨.node label mark children, path⟩).2 [] children
  rw [scanFrom]
  exact congrArg (RepetitionScan.append _) hchildren

theorem map_node_childrenFrom (v : Visit) (before rest : List Node) :
    (v.childrenFrom before rest).map Visit.node = rest := by
  induction rest generalizing before with
  | nil => rfl
  | cons child after ih => simp [Visit.childrenFrom, ih]

theorem map_node_children (v : Visit) : v.children.map Visit.node = v.node.children :=
  map_node_childrenFrom v [] _

namespace Scanned

variable {s : Scanned} {v a : Visit} {here : RepetitionScan}

/-! ## Section 2: The table of depths -/

theorem depthOf_note_self (h : v.node.isRepeating = true) : (s.note v here).depthOf v = here.depth := by
  simp [depthOf, note, h]

theorem depthOf_note_of_ne (h : a.node.index ≠ v.node.index) :
    (s.note v here).depthOf a = s.depthOf a := by
  by_cases hrepeating : v.node.isRepeating = true
  · simp [depthOf, note, hrepeating, h.symm]
  · simp [depthOf, note, hrepeating]

/-- What is noted is added to the outcome. -/
theorem outcome_note (h : v.node.isRepeating = false → here.depth = 0) :
    (s.note v here).outcome = s.outcome.append here := by
  by_cases hrepeating : v.node.isRepeating = true
  · simp [outcome, note, RepetitionScan.append, hrepeating, Nat.max_comm]
  · simp [outcome, note, RepetitionScan.append, hrepeating, h (by simpa using hrepeating)]

/-! ## Section 3: The stack -/

/-- The numbers of the nodes at and below the waiting places. -/
def pendingIndices (stack : List Pending) : List Nat :=
  stack.flatMap fun place => place.visit.node.indices

/-- Every node waits once, and the quantifiers of waiting places do not
    wait. -/
structure Waits (stack : List Pending) : Prop where
  nodup : (pendingIndices stack).Nodup
  passed : ∀ place ∈ stack, ∀ a, place.quantifier = some a →
    a.node.index ∉ pendingIndices stack

/-- Looking at a place takes its own number away. -/
theorem pendingIndices_cons (place : Pending) (stack : List Pending) (inner : Option Enclosing) :
    pendingIndices (place :: stack) =
      place.visit.node.index :: pendingIndices (waiting place.visit inner ++ stack) := by
  have hchildren : (waiting place.visit inner).flatMap (fun place => place.visit.node.indices) =
      place.visit.node.children.flatMap Node.indices := by
    rw [← map_node_children, waiting, List.flatMap_map, List.flatMap_map]
  unfold pendingIndices
  rw [List.flatMap_append, hchildren, List.flatMap_cons]
  obtain ⟨⟨label, mark, children⟩, path⟩ := place.visit
  rw [Node.indices_node]
  rfl

/-- The quantifier around the children of a place is the place itself or the
    one around it. -/
theorem quantifier_of_mem_waiting {enclosing : Option Enclosing} {child : Pending}
    (h : child ∈ waiting v (scanHere enclosing v).2) {q : Visit} (hq : child.quantifier = some q) :
    q = v ∨ enclosing.map Enclosing.quantifier = some q := by
  obtain ⟨visit, -, rfl⟩ := List.mem_map.mp h
  rw [scanHere_inner] at hq
  by_cases hrepeating : v.node.isRepeating = true
  · left
    simpa [hrepeating, eq_comm] using hq
  · right
    simpa [hrepeating, Function.comp_def] using hq

theorem Waits.step {place : Pending} {stack : List Pending} (h : Waits (place :: stack))
    (s : Scanned) :
    Waits (waiting place.visit (scanHere (s.enclosing place) place.visit).2 ++ stack) := by
  have hsplit := pendingIndices_cons place stack (scanHere (s.enclosing place) place.visit).2
  have hnodup := h.nodup
  rw [hsplit] at hnodup
  obtain ⟨hself, hrest⟩ := List.nodup_cons.mp hnodup
  -- whoever was passed before is not among fewer places
  have hpassed : ∀ other ∈ place :: stack, ∀ a, other.quantifier = some a →
      a.node.index ∉ pendingIndices
        (waiting place.visit (scanHere (s.enclosing place) place.visit).2 ++ stack) := by
    intro other hother a ha hmem
    apply h.passed other hother a ha
    rw [hsplit]
    exact List.mem_cons_of_mem _ hmem
  refine ⟨hrest, ?_⟩
  intro other hother a ha
  rcases List.mem_append.mp hother with hchild | hbelow
  · rcases quantifier_of_mem_waiting hchild ha with rfl | hplace
    · exact hself
    · refine hpassed place List.mem_cons_self a ?_
      simpa [enclosing, Function.comp_def] using hplace
  · exact hpassed other (List.mem_cons_of_mem _ hbelow) a ha

/-- The children of a place wait in the context that the scan gives them. -/
theorem enclosing_of_mem_waiting {place child : Pending} {stack : List Pending}
    (h : Waits (place :: stack))
    (hchild : child ∈ waiting place.visit (scanHere (s.enclosing place) place.visit).2) :
    (s.note place.visit (scanHere (s.enclosing place) place.visit).1).enclosing child =
      (scanHere (s.enclosing place) place.visit).2 := by
  obtain ⟨visit, -, rfl⟩ := List.mem_map.mp hchild
  have hinner := scanHere_inner (s.enclosing place) place.visit
  by_cases hrepeating : place.visit.node.isRepeating = true
  · rw [if_pos hrepeating] at hinner
    rw [hinner]
    simp [enclosing, depthOf_note_self hrepeating]
  · rw [if_neg hrepeating] at hinner
    rw [hinner]
    cases hq : place.quantifier with
    | none => simp [enclosing, hq]
    | some a =>
      have hne : a.node.index ≠ place.visit.node.index := by
        intro heq
        apply h.passed place List.mem_cons_self a hq
        rw [heq, pendingIndices_cons place stack none]
        exact List.mem_cons_self
      simp [enclosing, hq, depthOf_note_of_ne hne]

theorem enclosing_note {place other : Pending} {stack : List Pending}
    (h : Waits (place :: stack)) (hother : other ∈ stack) :
    (s.note place.visit here).enclosing other = s.enclosing other := by
  cases hq : other.quantifier with
  | none => simp [enclosing, hq]
  | some a =>
    have hne : a.node.index ≠ place.visit.node.index := by
      intro heq
      apply h.passed other (List.mem_cons_of_mem _ hother) a hq
      rw [heq, pendingIndices_cons place stack none]
      exact List.mem_cons_self
    simp [enclosing, hq, depthOf_note_of_ne hne]

/-! ## Section 4: A run -/

/-- What the recursive scan finds at a waiting place and below it. -/
def scanOf (s : Scanned) (place : Pending) : RepetitionScan :=
  scanFrom place.visit.path (s.enclosing place) place.visit.node

/-- The children that a place leaves behind are scanned in its context. -/
theorem map_scanOf_waiting {place : Pending} {stack : List Pending} (h : Waits (place :: stack)) :
    (waiting place.visit (scanHere (s.enclosing place) place.visit).2).map
        (s.note place.visit (scanHere (s.enclosing place) place.visit).1).scanOf =
      place.visit.children.map fun child =>
        scanFrom child.path (scanHere (s.enclosing place) place.visit).2 child.node := by
  generalize hinner : (scanHere (s.enclosing place) place.visit).2 = inner
  rw [waiting, List.map_map]
  apply List.map_congr_left
  intro child hchild
  have hmem : (⟨child, inner.map Enclosing.quantifier,
      (inner.map Enclosing.barrier).getD false⟩ : Pending) ∈
        waiting place.visit inner := List.mem_map_of_mem hchild
  subst hinner
  exact congrArg (scanFrom child.path · child.node) (enclosing_of_mem_waiting h hmem)

theorem map_scanOf_note {place : Pending} {stack : List Pending} (h : Waits (place :: stack)) :
    stack.map (s.note place.visit here).scanOf = stack.map s.scanOf := by
  apply List.map_congr_left
  intro other hother
  rw [scanOf, scanOf, enclosing_note h hother]

/-- A run finds what the recursive scans of the waiting places find. -/
theorem outcome_run {fuel : Nat} {stack : List Pending} (h : Waits stack)
    (hfuel : (pendingIndices stack).length ≤ fuel) :
    (run fuel stack s).outcome = s.outcome.append (.ofAll (stack.map s.scanOf)) := by
  induction fuel generalizing stack s with
  | zero =>
    cases stack with
    | nil => exact (RepetitionScan.append_none _).symm
    | cons place stack =>
      rw [pendingIndices_cons place stack none] at hfuel
      simp at hfuel
  | succ fuel ih =>
    cases stack with
    | nil => exact (RepetitionScan.append_none _).symm
    | cons place stack =>
      have hplace : s.scanOf place = _ := scanFrom_eq place.visit (s.enclosing place)
      have hwaiting := map_scanOf_waiting (s := s) h
      have hwaits := h.step s
      have hzero := @depth_scanHere (s.enclosing place) place.visit
      have hstep : run (fuel + 1) (place :: stack) s =
          run fuel (waiting place.visit (scanHere (s.enclosing place) place.visit).2 ++ stack)
            (s.note place.visit (scanHere (s.enclosing place) place.visit).1) := rfl
      generalize (scanHere (s.enclosing place) place.visit).1 = here at *
      generalize (scanHere (s.enclosing place) place.visit).2 = inner at *
      have hlength : (pendingIndices (waiting place.visit inner ++ stack)).length ≤ fuel := by
        rw [pendingIndices_cons place stack inner, List.length_cons] at hfuel
        omega
      -- the children are scanned first, then the rest of the stack
      calc (run (fuel + 1) (place :: stack) s).outcome
          = (s.note place.visit here).outcome.append
              (.ofAll ((waiting place.visit inner ++ stack).map
                (s.note place.visit here).scanOf)) := by rw [hstep, ih hwaits hlength]
        _ = (s.outcome.append here).append ((RepetitionScan.ofAll
              (place.visit.children.map fun child => scanFrom child.path inner child.node)).append
                (.ofAll (stack.map s.scanOf))) := by
            rw [outcome_note hzero, List.map_append, RepetitionScan.ofAll_append, hwaiting,
              map_scanOf_note h]
        _ = s.outcome.append (.ofAll ((place :: stack).map s.scanOf)) := by
            rw [List.map_cons, RepetitionScan.ofAll_cons, hplace]
            simp only [RepetitionScan.append_assoc]

end Scanned

/-- A scan with a stack finds what the recursive scan finds, if the numbers
    of the nodes tell them apart. -/
theorem scanWithStack_eq {root : Node} (h : root.indices.Nodup) :
    scanWithStack root = scanRepetition root := by
  have hpending : Scanned.pendingIndices [⟨⟨root, []⟩, none, false⟩] = root.indices := by
    simp [Scanned.pendingIndices]
  have hwaits : Scanned.Waits [⟨⟨root, []⟩, none, false⟩] := by
    refine ⟨hpending ▸ h, ?_⟩
    intro place hplace a ha
    obtain rfl := List.mem_singleton.mp hplace
    simp at ha
  have hfuel : (Scanned.pendingIndices [⟨⟨root, []⟩, none, false⟩]).length ≤ root.visits.length := by
    rw [hpending]
    simp [Node.indices, Node.preorder]
  unfold scanWithStack
  rw [Scanned.outcome_run hwaits hfuel]
  exact (RepetitionScan.none_append _).trans (RepetitionScan.append_none _)

/-- The scan of a parsed pattern, with a stack or without.  Its depth is the
    greatest depth of a repeating quantifier, zero without one.  It reports
    overlap if some alternation is ambiguous under the nearest repeating
    quantifier above it.  Its sites are those alternations and the
    quantifiers of depth 2 or more, in pattern order and each once. -/
theorem Pattern.scan_exact {text : Text} {p : Pattern} (h : Pattern.parse text = .ok p) :
    scanWithStack p.root = scanRepetition p.root ∧
      (scanRepetition p.root).depth =
        ((p.root.visits.filter fun q => q.node.isRepeating).map Visit.depth).max?.getD 0 ∧
      ((scanRepetition p.root).overlapping = true ↔
        ∃ x ∈ p.root.visits, ∃ a, x.enclosing? = some a ∧ x.OverlapsIn a) ∧
      (∀ site, site ∈ (scanRepetition p.root).sites ↔
        (∃ q ∈ p.root.visits, ∃ a, q.enclosing? = some a ∧ q.node.isRepeating = true ∧
          2 ≤ q.depth ∧ site = ⟨.nestedQuantifier, a, q, q.depth⟩) ∨
        ∃ x ∈ p.root.visits, ∃ a, x.enclosing? = some a ∧ x.OverlapsIn a ∧
          site = ⟨.overlappingAlternation, a, x, a.depth⟩) ∧
      ((scanRepetition p.root).sites.map fun site => site.cause.node.index).Sublist
        p.root.indices ∧
      ((scanRepetition p.root).sites.map fun site => site.cause.node.index).Nodup := by
  obtain ⟨count, hnumbered⟩ := Pattern.numbered_of_parse h
  have hnodup : p.root.indices.Nodup := hnumbered.perm_range.nodup_iff.mpr List.nodup_range
  have hsublist : ((scanRepetition p.root).sites.map fun site => site.cause.node.index).Sublist
      p.root.indices := by
    have hcauses := (@causes_sublist p.root).map fun v : Visit => v.node.index
    simpa [Node.indices, Node.preorder, Function.comp_def] using hcauses
  exact ⟨scanWithStack_eq hnodup, depth_scanRepetition, overlapping_scanRepetition,
    fun site => mem_sites_scanRepetition, hsublist, hnodup.sublist hsublist⟩

/-- One of four quantifiers is nested in the one around it: another must be
    followed by a `b`, and the last is kept apart by an atomic group. -/
theorem Pattern.scan_exact_of_nested :
    ∃ p, Pattern.parse "(?:(?:a+)+(?>b+))+".toList = .ok p ∧
      (scanRepetition p.root).sites.length = 1 ∧
      scanWithStack p.root = scanRepetition p.root ∧
      ((p.root.visits.filter fun q => q.node.isRepeating).map Visit.depth).max?.getD 0 = 2 := by
  have hcheck : (Pattern.parse "(?:(?:a+)+(?>b+))+".toList).toOption.any (fun p =>
      (scanRepetition p.root).sites.length == 1 && (scanRepetition p.root).depth == 2) = true := by
    decide +kernel
  obtain ⟨p, hp, hcheck⟩ := Pattern.exists_of_check hcheck
  simp only [Bool.and_eq_true, beq_iff_eq] at hcheck
  obtain ⟨hsame, hdepth, -⟩ := Pattern.scan_exact hp
  exact ⟨p, hp, hcheck.1, hsame, hdepth.symm.trans hcheck.2⟩

end RegexInsight
