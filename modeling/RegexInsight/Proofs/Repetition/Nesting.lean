import Mathlib
import RegexInsight.Proofs.Pattern.Way
import RegexInsight.Repetition

/-! # Nesting of repetitions

    What the scan for ambiguous repetitions finds, said place by place.  A
    repeating quantifier has a depth that depends on the nearest repeating
    quantifier above it, an alternation is ambiguous under that quantifier
    or it is not, and neither depends on the order in which places are
    scanned.  The scan goes down the tree with the enclosing quantifier as
    its only context; this context is the one that a place sees when it
    looks up, so the findings of a scan are those of its places. -/

namespace RegexInsight

/-! ## Section 1: One place -/

/-- Only a repeating quantifier is found at a depth. -/
theorem depth_scanHere {enclosing : Option Enclosing} {v : Visit}
    (h : v.node.isRepeating = false) : (scanHere enclosing v).1.depth = 0 := by
  unfold scanHere
  simp only [h, Bool.false_eq_true, if_false]
  split
  · rfl
  · split
    · split
      · split <;> rfl
      · rfl
    · rfl

/-- The context of the children: a repeating quantifier with the depth that
    was found for it, else the same quantifier as before. -/
theorem scanHere_inner (enclosing : Option Enclosing) (v : Visit) :
    (scanHere enclosing v).2 =
      if v.node.isRepeating then
        some ⟨v, (scanHere enclosing v).1.depth, v.node.label.isPossessive⟩
      else enclosing.map fun e =>
        { e with barrier := e.barrier || v.node.label.isAtomicGroup } := by
  unfold scanHere
  by_cases hrepeating : v.node.isRepeating = true
  · simp only [hrepeating, if_true]
    split <;> rfl
  · simp only [hrepeating, Bool.false_eq_true, if_false]
    by_cases hatomic : v.node.label.isAtomicGroup = true
    · simp [hatomic]
    · -- an ambiguous alternation leaves the context as it is
      have hsame : (enclosing.map fun e =>
          { e with barrier := e.barrier || v.node.label.isAtomicGroup }) = enclosing := by
        simp [hatomic]
      rw [if_neg hatomic, hsame]
      split
      · split
        · split <;> rfl
        · rfl
      · rfl

namespace Visit

/-! ## Section 2: Looking up -/

/-- The visits of the ancestors, the nearest first. -/
def above (v : Visit) : List Visit :=
  go v.path
where
  go : List Step → List Visit
    | [] => []
    | step :: up => ⟨step.parent, up⟩ :: go up

/-- The nearest repeating quantifier strictly above. -/
def enclosing? (v : Visit) : Option Visit :=
  v.above.find? fun a => a.node.isRepeating

/-- What stands strictly between a node and the nearest repeating quantifier
    above it. -/
def between (v : Visit) : List Visit :=
  v.above.takeWhile fun a => !a.node.isRepeating

/-- The quantifier `a` around a place gives back what it matched there: it is
    not possessive, and no atomic group stands between. -/
def YieldsTo (a v : Visit) : Prop :=
  a.node.label.isPossessive = false ∧ ∀ b ∈ v.between, b.node.label.isAtomicGroup = false

/-- The repeating quantifier `q` counts as nested in `a`. -/
def NestsIn (q a : Visit) : Prop :=
  a.YieldsTo q ∧ q.node.label.isPossessive = false ∧
    q.node.chars.intersects (followInBody q.path) = true

instance (a v : Visit) : Decidable (a.YieldsTo v) :=
  inferInstanceAs (Decidable (_ ∧ _))

instance (q a : Visit) : Decidable (q.NestsIn a) :=
  inferInstanceAs (Decidable (_ ∧ _ ∧ _))

theorem above_cons (child : Node) (step : Step) (path : List Step) :
    above ⟨child, step :: path⟩ = ⟨step.parent, path⟩ :: above ⟨step.parent, path⟩ := rfl

/-- Ancestors stand on shorter paths. -/
theorem length_path_of_mem_above {v a : Visit} (h : a ∈ v.above) :
    a.path.length < v.path.length := by
  obtain ⟨n, path⟩ := v
  induction path generalizing n with
  | nil => simp [above, above.go] at h
  | cons step path ih =>
    rw [above_cons] at h
    rcases List.mem_cons.mp h with rfl | h
    · exact Nat.lt_succ_self _
    · exact Nat.lt_succ_of_lt (ih _ h)

/-- The depth of a repeating quantifier: one more than that of the
    quantifier that it is nested in, and 1 where a chain begins. -/
def depth (q : Visit) : Nat :=
  match _h : q.enclosing? with
  | some a => if q.NestsIn a then a.depth + 1 else 1
  | none => 1
termination_by q.path.length
decreasing_by exact length_path_of_mem_above (List.mem_of_find?_eq_some _h)

/-- The node `x` is an alternation that is ambiguous under the repeating
    quantifier `a`. -/
def OverlapsIn (x a : Visit) : Prop :=
  x.node.kind = .alternation ∧ a.YieldsTo x ∧ branchesOverlap x.node.children = true

instance (x a : Visit) : Decidable (x.OverlapsIn a) :=
  inferInstanceAs (Decidable (_ ∧ _ ∧ _))

theorem depth_of_nests {q a : Visit} (henclosing : q.enclosing? = some a) (h : q.NestsIn a) :
    q.depth = a.depth + 1 := by
  rw [depth]
  split
  next a' ha' =>
    obtain rfl : a = a' := Option.some.inj (henclosing.symm.trans ha')
    rw [if_pos h]
  next hnone => simp [henclosing] at hnone

theorem depth_of_not_nests {q : Visit} (h : ∀ a, q.enclosing? = some a → ¬ q.NestsIn a) :
    q.depth = 1 := by
  rw [depth]
  split
  next a ha => rw [if_neg (h a ha)]
  next => rfl

theorem depth_pos (q : Visit) : 1 ≤ q.depth := by
  by_cases h : ∃ a, q.enclosing? = some a ∧ q.NestsIn a
  · obtain ⟨a, ha, hnests⟩ := h
    rw [depth_of_nests ha hnests]
    omega
  · have hone := depth_of_not_nests fun a ha hnests => h ⟨a, ha, hnests⟩
    omega

/-- A chain goes on exactly where the depth is more than 1. -/
theorem two_le_depth_iff {q : Visit} :
    2 ≤ q.depth ↔ ∃ a, q.enclosing? = some a ∧ q.NestsIn a := by
  constructor
  · intro htwo
    by_contra h
    have hone := depth_of_not_nests fun a ha hnests => h ⟨a, ha, hnests⟩
    omega
  · rintro ⟨a, ha, hnests⟩
    have hpos := a.depth_pos
    rw [depth_of_nests ha hnests]
    omega

/-! ## Section 3: The context of a place -/

/-- The enclosing quantifier as the scan knows it at a place. -/
def context (v : Visit) : Option Enclosing :=
  v.enclosing?.map fun a => ⟨a, a.depth,
    a.node.label.isPossessive || v.between.any fun b => b.node.label.isAtomicGroup⟩

theorem context_eq_none {v : Visit} (h : v.enclosing? = none) : v.context = none := by
  rw [context, h]
  rfl

/-- The context names the enclosing quantifier with its depth, and shows a
    barrier unless that quantifier yields to the place. -/
theorem exists_context {v a : Visit} (h : v.enclosing? = some a) :
    ∃ barrier, v.context = some ⟨a, a.depth, barrier⟩ ∧ (barrier = false ↔ a.YieldsTo v) := by
  refine ⟨_, congrArg _ h, ?_⟩
  simp [YieldsTo]

/-- The context of the children of a place: a repeating quantifier begins a
    new one, and an atomic group puts one more barrier into it. -/
def contextBelow (v : Visit) : Option Enclosing :=
  if v.node.isRepeating then some ⟨v, v.depth, v.node.label.isPossessive⟩
  else v.context.map fun e => { e with barrier := e.barrier || v.node.label.isAtomicGroup }

theorem context_child (v : Visit) (child : Node) (before after : List Node) :
    context ⟨child, ⟨v.node, before, after⟩ :: v.path⟩ = v.contextBelow := by
  by_cases h : v.node.isRepeating = true
  · simp [context, contextBelow, enclosing?, between, above_cons, h]
  · simp only [context, contextBelow, enclosing?, between, above_cons, h, List.find?_cons,
      List.takeWhile_cons, Option.map_map]
    congr 1
    funext a
    simp [Bool.or_comm, Bool.or_left_comm]

/-! ## Section 4: What is found at a place -/

/-- What a scan has to find at one place. -/
def found (v : Visit) : RepetitionScan :=
  match v.enclosing? with
  | some a =>
    if v.node.isRepeating then
      ⟨v.depth, false, if v.NestsIn a then [⟨.nestedQuantifier, a, v, v.depth⟩] else []⟩
    else if v.OverlapsIn a then ⟨0, true, [⟨.overlappingAlternation, a, v, a.depth⟩]⟩
    else .none
  | none => if v.node.isRepeating then ⟨v.depth, false, []⟩ else .none

/-- Within its context the scan tells rightly whether a quantifier is
    nested. -/
theorem nestedIn?_context {v a : Visit} (h : v.enclosing? = some a) :
    nestedIn? v.context v = if v.NestsIn a then some ⟨a, a.depth, false⟩ else none := by
  obtain ⟨barrier, hcontext, hyields⟩ := exists_context h
  rw [hcontext]
  by_cases hnests : v.NestsIn a
  · obtain ⟨hyield, hpossessive, hfollow⟩ := hnests
    have hbarrier := hyields.mpr hyield
    simp [nestedIn?, NestsIn, hyield, hpossessive, hfollow, hbarrier]
  · rw [if_neg hnests]
    by_contra hne
    refine hnests ⟨hyields.mp ?_, ?_, ?_⟩ <;> simp_all [nestedIn?]

theorem scanHere_of_repeating {v : Visit} (h : v.node.isRepeating = true) :
    (scanHere v.context v).1 = v.found := by
  cases henclosing : v.enclosing? with
  | none =>
    -- nothing encloses the place, so a chain can only begin here
    have hdepth : v.depth = 1 := depth_of_not_nests (by simp [henclosing])
    simp [scanHere, nestedIn?, found, context_eq_none henclosing, henclosing, h, hdepth]
  | some a =>
    have hnested := nestedIn?_context henclosing
    by_cases hnests : v.NestsIn a
    · have hdepth := depth_of_nests henclosing hnests
      rw [if_pos hnests] at hnested
      simp [scanHere, found, henclosing, h, hnested, hnests, hdepth]
    · have hdepth : v.depth = 1 := depth_of_not_nests (by simpa [henclosing] using hnests)
      rw [if_neg hnests] at hnested
      simp [scanHere, found, henclosing, h, hnested, hnests, hdepth]

/-- Of what does not repeat, only alternations are looked at. -/
theorem scanHere_of_not_repeating {v : Visit} (h : v.node.isRepeating = false) :
    (scanHere v.context v).1 = v.found := by
  by_cases hkind : v.node.kind = .alternation
  · have hatomic : v.node.label.isAtomicGroup = false := by
      unfold Node.kind at hkind
      cases hlabel : v.node.label <;> simp_all [Label.kind, Label.isAtomicGroup]
    cases henclosing : v.enclosing? with
    | none =>
      simp [scanHere, found, context_eq_none henclosing, henclosing, h, hatomic, hkind]
    | some a =>
      -- the context is barred unless the enclosing quantifier yields to the place
      obtain ⟨barrier, hcontext, hyields⟩ := exists_context henclosing
      have htest : (!barrier && branchesOverlap v.node.children) = true ↔ v.OverlapsIn a := by
        simp [OverlapsIn, hkind, hyields]
      by_cases hoverlaps : v.OverlapsIn a
      · simp [scanHere, found, hcontext, henclosing, h, hatomic, hkind, htest.mpr hoverlaps,
          hoverlaps]
      · simp [scanHere, found, hcontext, henclosing, h, hatomic, hkind, mt htest.mp hoverlaps,
          hoverlaps]
  · have hnot : ∀ a, ¬ v.OverlapsIn a := fun a hoverlaps => hkind hoverlaps.1
    have hfound : v.found = .none := by
      unfold found
      split <;> simp [h, hnot]
    rw [hfound]
    by_cases hatomic : v.node.label.isAtomicGroup = true <;>
      simp [scanHere, h, hatomic, hkind]

/-- Within its context the scan finds at a place what has to be found
    there, and hands on the context of the children. -/
theorem scanHere_context (v : Visit) : scanHere v.context v = (v.found, v.contextBelow) := by
  cases h : v.node.isRepeating with
  | true =>
    have hfound := scanHere_of_repeating h
    have hdepth : v.found.depth = v.depth := by
      unfold found
      split <;> simp [h]
    refine Prod.ext hfound ?_
    rw [scanHere_inner, hfound, hdepth, contextBelow, h]
  | false =>
    refine Prod.ext (scanHere_of_not_repeating h) ?_
    rw [scanHere_inner, contextBelow, h]
    rfl

end Visit

namespace RepetitionScan

/-! ## Section 5: Findings put together -/

theorem none_append (a : RepetitionScan) : none.append a = a := by
  simp [append, none]

theorem append_none (a : RepetitionScan) : a.append none = a := by
  simp [append, none]

theorem append_assoc (a b c : RepetitionScan) : (a.append b).append c = a.append (b.append c) := by
  simp [append, Nat.max_assoc, Bool.or_assoc]

/-- The findings of several places, one after the other. -/
def ofAll (found : List RepetitionScan) : RepetitionScan :=
  found.foldr append none

theorem ofAll_cons (first : RepetitionScan) (rest : List RepetitionScan) :
    ofAll (first :: rest) = first.append (ofAll rest) := rfl

theorem ofAll_append (a b : List RepetitionScan) :
    ofAll (a ++ b) = (ofAll a).append (ofAll b) := by
  induction a with
  | nil => exact (none_append _).symm
  | cons first rest ih =>
    rw [List.cons_append, ofAll_cons, ofAll_cons, ih, append_assoc]

theorem sites_ofAll (found : List RepetitionScan) : (ofAll found).sites = found.flatMap sites := by
  induction found with
  | nil => rfl
  | cons first rest ih => simp [ofAll, append, ← ih]

theorem overlapping_ofAll (found : List RepetitionScan) :
    (ofAll found).overlapping = found.any overlapping := by
  induction found with
  | nil => rfl
  | cons first rest ih => simp [ofAll, append, ← ih]

/-- The depth of several findings is the greatest one. -/
theorem depth_ofAll (found : List RepetitionScan) :
    (ofAll found).depth = (found.map depth).foldr max 0 := by
  induction found with
  | nil => rfl
  | cons first rest ih => simp [ofAll, append, ← ih]

end RepetitionScan

/-! ## Section 6: The scan -/

theorem scanFrom_context (n : Node) (path : List Step) :
    scanFrom path (Visit.context ⟨n, path⟩) n = .ofAll ((n.visitsFrom path).map Visit.found) := by
  induction n using Node.induction generalizing path with
  | node label mark children ih =>
    -- the children that are still to be scanned, whatever stands before them
    have hrest : ∀ before rest, (∀ child ∈ rest, child ∈ children) →
        scanChildren (.node label mark children) path
            (Visit.contextBelow ⟨.node label mark children, path⟩) before rest =
          .ofAll ((Node.visitsOf (.node label mark children) path before rest).map Visit.found) := by
      intro before rest
      induction rest generalizing before with
      | nil => intro _; rfl
      | cons child after ihrest =>
        intro hsub
        have hchild := ih child (hsub child List.mem_cons_self)
          (⟨.node label mark children, before, after⟩ :: path)
        have hcontext := Visit.context_child ⟨.node label mark children, path⟩ child before after
        rw [hcontext] at hchild
        simp only [scanChildren, Node.visitsOf, List.map_append, RepetitionScan.ofAll_append]
        rw [hchild, ihrest (child :: before) fun other hother =>
          hsub other (List.mem_cons_of_mem _ hother)]
    simp only [scanFrom, Node.visitsFrom, List.map_cons, Visit.scanHere_context]
    rw [hrest [] children fun _ hchild => hchild]
    rfl

/-- A scan finds at every place what has to be found there. -/
theorem scanRepetition_eq (root : Node) :
    scanRepetition root = .ofAll (root.visits.map Visit.found) :=
  scanFrom_context root []

/-! ## Section 7: The three findings -/

section Findings

variable {root : Node}

theorem depth_found (v : Visit) :
    v.found.depth = if v.node.isRepeating then v.depth else 0 := by
  unfold Visit.found
  by_cases hrepeating : v.node.isRepeating = true
  · cases v.enclosing? <;> simp [hrepeating]
  · cases v.enclosing? with
    | none => simp [hrepeating, RepetitionScan.none]
    | some a =>
      by_cases hoverlaps : v.OverlapsIn a
      · simp [hrepeating, hoverlaps]
      · simp [hrepeating, hoverlaps, RepetitionScan.none]

/-- The depth of a scan is the greatest depth of a repeating quantifier, and
    zero without one. -/
theorem depth_scanRepetition :
    (scanRepetition root).depth =
      ((root.visits.filter fun q => q.node.isRepeating).map Visit.depth).max?.getD 0 := by
  rw [scanRepetition_eq, RepetitionScan.depth_ofAll]
  induction root.visits with
  | nil => rfl
  | cons v rest ih =>
    rw [List.map_cons, List.map_cons, List.foldr_cons, ih, depth_found, List.filter_cons]
    split
    · rw [List.map_cons, List.max?_cons]
      cases ((rest.filter fun q => q.node.isRepeating).map Visit.depth).max? <;> simp
    · simp

/-- An alternation is no quantifier. -/
theorem Visit.OverlapsIn.not_repeating {x a : Visit} (h : x.OverlapsIn a) :
    x.node.isRepeating = false := by
  have hkind := h.1
  unfold Node.kind at hkind
  unfold Node.isRepeating
  cases hlabel : x.node.label <;> simp_all [Label.kind, Label.isRepeating]

theorem overlapping_found_iff {v : Visit} :
    v.found.overlapping = true ↔ ∃ a, v.enclosing? = some a ∧ v.OverlapsIn a := by
  unfold Visit.found
  cases henclosing : v.enclosing? with
  | none => by_cases hrepeating : v.node.isRepeating = true <;>
      simp [hrepeating, RepetitionScan.none]
  | some a =>
    by_cases hoverlaps : v.OverlapsIn a
    · simp [hoverlaps, hoverlaps.not_repeating]
    · by_cases hrepeating : v.node.isRepeating = true <;>
        simp [hrepeating, hoverlaps, RepetitionScan.none]

/-- A scan reports overlap if some alternation is ambiguous under the nearest
    repeating quantifier above it. -/
theorem overlapping_scanRepetition :
    (scanRepetition root).overlapping = true ↔
      ∃ x ∈ root.visits, ∃ a, x.enclosing? = some a ∧ x.OverlapsIn a := by
  rw [scanRepetition_eq, RepetitionScan.overlapping_ofAll]
  simp [overlapping_found_iff]

/-- The site found at a place, if there is one. -/
theorem mem_sites_found_iff {v : Visit} {site : RiskSite} :
    site ∈ v.found.sites ↔ ∃ a, v.enclosing? = some a ∧
      (v.node.isRepeating = true ∧ 2 ≤ v.depth ∧ site = ⟨.nestedQuantifier, a, v, v.depth⟩ ∨
        v.OverlapsIn a ∧ site = ⟨.overlappingAlternation, a, v, a.depth⟩) := by
  unfold Visit.found
  rw [Visit.two_le_depth_iff]
  cases henclosing : v.enclosing? with
  | none => by_cases hrepeating : v.node.isRepeating = true <;>
      simp [hrepeating, RepetitionScan.none]
  | some a =>
    by_cases hoverlaps : v.OverlapsIn a
    · simp [hoverlaps, hoverlaps.not_repeating]
    · by_cases hrepeating : v.node.isRepeating = true
      · by_cases hnests : v.NestsIn a <;> simp [hrepeating, hoverlaps, hnests]
      · simp [hrepeating, hoverlaps, RepetitionScan.none]

/-- The sites of a scan are the quantifiers at which a chain goes on and the
    ambiguous alternations. -/
theorem mem_sites_scanRepetition {site : RiskSite} :
    site ∈ (scanRepetition root).sites ↔
      (∃ q ∈ root.visits, ∃ a, q.enclosing? = some a ∧ q.node.isRepeating = true ∧
        2 ≤ q.depth ∧ site = ⟨.nestedQuantifier, a, q, q.depth⟩) ∨
      ∃ x ∈ root.visits, ∃ a, x.enclosing? = some a ∧ x.OverlapsIn a ∧
        site = ⟨.overlappingAlternation, a, x, a.depth⟩ := by
  rw [scanRepetition_eq, RepetitionScan.sites_ofAll]
  simp only [List.mem_flatMap, List.mem_map, exists_exists_and_eq_and, mem_sites_found_iff]
  constructor
  · rintro ⟨v, hv, a, ha, ⟨hrepeating, htwo, hsite⟩ | ⟨hoverlaps, hsite⟩⟩
    · exact .inl ⟨v, hv, a, ha, hrepeating, htwo, hsite⟩
    · exact .inr ⟨v, hv, a, ha, hoverlaps, hsite⟩
  · rintro (⟨v, hv, a, ha, hrepeating, htwo, hsite⟩ | ⟨v, hv, a, ha, hoverlaps, hsite⟩)
    · exact ⟨v, hv, a, ha, .inl ⟨hrepeating, htwo, hsite⟩⟩
    · exact ⟨v, hv, a, ha, .inr ⟨hoverlaps, hsite⟩⟩

/-- The quantifier of a site is the nearest one around its cause. -/
theorem enclosing_of_mem_sites {site : RiskSite} (h : site ∈ (scanRepetition root).sites) :
    site.cause ∈ root.visits ∧ site.cause.enclosing? = some site.quantifier := by
  rcases mem_sites_scanRepetition.mp h with ⟨q, hq, a, ha, -, -, rfl⟩ | ⟨x, hx, a, ha, -, rfl⟩
  · exact ⟨hq, ha⟩
  · exact ⟨hx, ha⟩

/-- A place is the cause of one site at most. -/
theorem cause_found_sublist (v : Visit) : (v.found.sites.map RiskSite.cause).Sublist [v] := by
  unfold Visit.found
  cases v.enclosing? with
  | none => by_cases hrepeating : v.node.isRepeating = true <;>
      simp [hrepeating, RepetitionScan.none]
  | some a =>
    by_cases hrepeating : v.node.isRepeating = true
    · by_cases hnests : v.NestsIn a <;> simp [hrepeating, hnests]
    · by_cases hoverlaps : v.OverlapsIn a <;> simp [hrepeating, hoverlaps, RepetitionScan.none]

/-- The causes of the sites stand in pattern order. -/
theorem causes_sublist :
    ((scanRepetition root).sites.map RiskSite.cause).Sublist root.visits := by
  rw [scanRepetition_eq, RepetitionScan.sites_ofAll]
  induction root.visits with
  | nil => exact .slnil
  | cons v rest ih =>
    rw [List.map_cons, List.flatMap_cons, List.map_append]
    exact (cause_found_sublist v).append ih

end Findings

end RegexInsight
