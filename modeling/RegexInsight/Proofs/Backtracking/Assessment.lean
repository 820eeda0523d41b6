import Mathlib
import RegexInsight.Backtracking.Assessment
import RegexInsight.Proofs.Repetition.Follow

/-! # The static assessment

    The score is read from the profile, the sites from a scan that is
    sorted.  Both come from one depth, the greatest of a repeating
    quantifier: where it is more than 1 the site that has it is a nested
    quantifier and comes first, and where it is not there are overlapping
    alternations only.  So the score is zero exactly when there is nothing
    to attack. -/

namespace RegexInsight

/-! ## Section 1: The order of sites -/

namespace RiskSite

variable {a b : RiskSite}

theorem notAfter_iff : a.notAfter b = true ↔ b.depth < a.depth ∨ a.depth = b.depth ∧
    (a.kind ≠ b.kind ∧ a.kind = .nestedQuantifier ∨
      a.kind = b.kind ∧ a.quantifier.node.start ≤ b.quantifier.node.start) := by
  unfold notAfter
  by_cases hdepth : a.depth = b.depth
  · by_cases hkind : a.kind = b.kind <;> simp [hdepth, hkind]
  · simp [hdepth]

theorem notAfter_trans (a b c : RiskSite) (hab : a.notAfter b = true)
    (hbc : b.notAfter c = true) : a.notAfter c = true := by
  rw [notAfter_iff] at *
  cases hkind : a.kind <;> cases hkind' : b.kind <;> cases hkind'' : c.kind <;>
    simp only [hkind, hkind', hkind'', reduceCtorEq, ne_eq, not_true_eq_false,
      not_false_eq_true, true_and, false_and, and_true, and_false, or_false, false_or] at * <;>
    omega

theorem notAfter_total (a b : RiskSite) : (a.notAfter b || b.notAfter a) = true := by
  rw [Bool.or_eq_true, notAfter_iff, notAfter_iff]
  cases hkind : a.kind <;> cases hkind' : b.kind <;>
    simp only [reduceCtorEq, ne_eq, not_true_eq_false, not_false_eq_true, true_and, false_and,
      and_true, and_false, or_false, false_or] <;>
    omega

/-- A site before a nested quantifier of the same depth is one as well. -/
theorem kind_of_notAfter (h : a.notAfter b = true) (hdepth : a.depth = b.depth)
    (hkind : b.kind = .nestedQuantifier) : a.kind = .nestedQuantifier := by
  rcases notAfter_iff.mp h with hlt | ⟨-, ⟨-, hnested⟩ | ⟨hsame, -⟩⟩
  · omega
  · exact hnested
  · exact hsame.trans hkind

end RiskSite

/-! ## Section 2: Depths -/

section Depths

variable {root : Node} {site : RiskSite}

/-- No repeating quantifier is deeper than the scan. -/
theorem depth_le_scanRepetition {q : Visit} (hq : q ∈ root.visits)
    (hrepeating : q.node.isRepeating = true) : q.depth ≤ (scanRepetition root).depth := by
  rw [depth_scanRepetition]
  exact List.le_max?_getD_of_mem (List.mem_map_of_mem (List.mem_filter.mpr ⟨hq, hrepeating⟩))

/-- A scan that goes deep is as deep as some repeating quantifier. -/
theorem exists_depth_eq_scanRepetition (h : (scanRepetition root).depth ≠ 0) :
    ∃ q ∈ root.visits, q.node.isRepeating = true ∧ q.depth = (scanRepetition root).depth := by
  rw [depth_scanRepetition] at h ⊢
  cases hmax : ((root.visits.filter fun q => q.node.isRepeating).map Visit.depth).max? with
  | none => exact absurd (by rw [hmax]; rfl) h
  | some depth =>
    obtain ⟨q, hq, hdepth⟩ := List.mem_map.mp (List.max?_mem hmax)
    obtain ⟨hvisit, hrepeating⟩ := List.mem_filter.mp hq
    exact ⟨q, hvisit, hrepeating, hdepth⟩

/-- The depth of a site is that of a repeating quantifier: of the one that is
    nested, or of the one around the alternation. -/
theorem depth_of_mem_sites (h : site ∈ (scanRepetition root).sites) :
    ∃ q ∈ root.visits, q.node.isRepeating = true ∧ site.depth = q.depth ∧
      (site.kind = .nestedQuantifier → 2 ≤ q.depth) := by
  obtain ⟨hplace, hrepeats⟩ := quantifier_mem_visits h
  rcases mem_sites_scanRepetition.mp h with
    ⟨q, hq, a, -, hrepeating, htwo, rfl⟩ | ⟨x, hx, a, ha, -, rfl⟩
  · exact ⟨q, hq, hrepeating, rfl, fun _ => htwo⟩
  · exact ⟨a, hplace, hrepeats, rfl, by simp⟩

theorem depth_le_of_mem_sites (h : site ∈ (scanRepetition root).sites) :
    site.depth ≤ (scanRepetition root).depth := by
  obtain ⟨q, hq, hrepeating, hdepth, -⟩ := depth_of_mem_sites h
  rw [hdepth]
  exact depth_le_scanRepetition hq hrepeating

/-- A scan that finds a chain has a nested quantifier of its own depth. -/
theorem exists_nested_of_two_le (h : 2 ≤ (scanRepetition root).depth) :
    ∃ site ∈ (scanRepetition root).sites,
      site.kind = .nestedQuantifier ∧ site.depth = (scanRepetition root).depth := by
  have hne : (scanRepetition root).depth ≠ 0 := by omega
  obtain ⟨q, hq, hrepeating, hdepth⟩ := exists_depth_eq_scanRepetition hne
  have htwo : 2 ≤ q.depth := hdepth ▸ h
  obtain ⟨a, ha, -⟩ := Visit.two_le_depth_iff.mp htwo
  refine ⟨⟨.nestedQuantifier, a, q, q.depth⟩, ?_, rfl, hdepth⟩
  exact mem_sites_scanRepetition.mpr (.inl ⟨q, hq, a, ha, hrepeating, htwo, rfl⟩)

/-- Without a chain only alternations are ambiguous. -/
theorem overlapping_of_depth_le_one (h : (scanRepetition root).depth ≤ 1)
    (hsite : site ∈ (scanRepetition root).sites) :
    site.kind = .overlappingAlternation ∧ site.depth = 1 := by
  obtain ⟨q, hq, hrepeating, hdepth, htwo⟩ := depth_of_mem_sites hsite
  have hle := depth_le_scanRepetition hq hrepeating
  have hpos := q.depth_pos
  refine ⟨?_, by omega⟩
  cases hkind : site.kind with
  | overlappingAlternation => rfl
  | nestedQuantifier =>
    have := htwo hkind
    omega

/-- Overlap is reported exactly where an alternation is a site. -/
theorem overlapping_scanRepetition_iff : (scanRepetition root).overlapping = true ↔
    ∃ site ∈ (scanRepetition root).sites, site.kind = .overlappingAlternation := by
  rw [overlapping_scanRepetition]
  constructor
  · rintro ⟨x, hx, a, ha, hoverlaps⟩
    refine ⟨⟨.overlappingAlternation, a, x, a.depth⟩, ?_, rfl⟩
    exact mem_sites_scanRepetition.mpr (.inr ⟨x, hx, a, ha, hoverlaps, rfl⟩)
  · rintro ⟨site, hsite, hkind⟩
    rcases mem_sites_scanRepetition.mp hsite with
      ⟨q, -, a, -, -, -, rfl⟩ | ⟨x, hx, a, ha, hoverlaps, -⟩
    · simp at hkind
    · exact ⟨x, hx, a, ha, hoverlaps⟩

end Depths

/-! ## Section 3: Score and sites -/

theorem riskScore_eq_zero_iff {depth : Nat} {overlapping : Bool} :
    riskScore depth overlapping = 0 ↔ depth ≤ 1 ∧ overlapping = false := by
  cases overlapping <;> simp [riskScore, nestingWeight, overlapWeight, Nat.sub_eq_zero_iff_le]

/-- Nothing scores exactly when there is no site. -/
theorem riskScore_scanRepetition_eq_zero_iff {root : Node} :
    riskScore (scanRepetition root).depth (scanRepetition root).overlapping = 0 ↔
      (scanRepetition root).sites = [] := by
  rw [riskScore_eq_zero_iff]
  constructor
  · rintro ⟨hdepth, hoverlapping⟩
    refine List.eq_nil_iff_forall_not_mem.mpr fun site hsite => ?_
    -- a site without a chain is an overlap
    have hkind := (overlapping_of_depth_le_one hdepth hsite).1
    exact Bool.eq_false_iff.mp hoverlapping
      (overlapping_scanRepetition_iff.mpr ⟨site, hsite, hkind⟩)
  · intro hnone
    constructor
    · by_contra hdeep
      obtain ⟨site, hsite, -⟩ := exists_nested_of_two_le (Nat.lt_of_not_le hdeep)
      simp [hnone] at hsite
    · refine Bool.eq_false_iff.mpr fun hoverlapping => ?_
      obtain ⟨site, hsite, -⟩ := overlapping_scanRepetition_iff.mp hoverlapping
      simp [hnone] at hsite

namespace Pattern

variable (p : Pattern)

/-- Sorting keeps the sites of the scan. -/
theorem sites_assess_perm : p.assess.sites.Perm (scanRepetition p.root).sites :=
  List.mergeSort_perm _ _

theorem pairwise_sites_assess : p.assess.sites.Pairwise fun a b => a.notAfter b = true := by
  show ((scanRepetition p.root).sites.mergeSort RiskSite.notAfter).Pairwise _
  exact List.pairwise_mergeSort RiskSite.notAfter_trans RiskSite.notAfter_total _

/-- The riskiest site is a site of the scan that comes after no other. -/
theorem riskiest_spec {p : Pattern} {first : RiskSite} (h : p.assess.riskiest? = some first) :
    first ∈ (scanRepetition p.root).sites ∧
      ∀ site ∈ (scanRepetition p.root).sites, first.notAfter site = true := by
  obtain ⟨rest, hsites⟩ := List.head?_eq_some_iff.mp h
  have hperm := p.sites_assess_perm
  have hsorted := p.pairwise_sites_assess
  rw [hsites] at hperm hsorted
  refine ⟨hperm.mem_iff.mp List.mem_cons_self, fun site hsite => ?_⟩
  rcases List.mem_cons.mp (hperm.mem_iff.mpr hsite) with rfl | hrest
  · simpa using site.notAfter_total site
  · exact (List.pairwise_cons.mp hsorted).1 site hrest

/-- With a chain the riskiest site is a nested quantifier as deep as the
    scan. -/
theorem exists_riskiest_of_two_le {p : Pattern} (h : 2 ≤ (scanRepetition p.root).depth) :
    ∃ first, p.assess.riskiest? = some first ∧ first.kind = .nestedQuantifier ∧
      first.depth = (scanRepetition p.root).depth := by
  obtain ⟨site, hsite, hkind, hdepth⟩ := exists_nested_of_two_le h
  -- some site comes first, for there is one
  have hsome : p.assess.sites ≠ [] := List.ne_nil_of_mem (p.sites_assess_perm.mem_iff.mpr hsite)
  have hfirst : p.assess.riskiest? = some (p.assess.sites.head hsome) := List.head?_eq_some_head _
  obtain ⟨hmem, hbefore⟩ := riskiest_spec hfirst
  have hbefore := hbefore site hsite
  -- the first site is no deeper than the scan and no less deep than the nested one
  have hle := depth_le_of_mem_sites hmem
  have hsame : (p.assess.sites.head hsome).depth = site.depth := by
    rcases RiskSite.notAfter_iff.mp hbefore with hlt | ⟨heq, -⟩ <;> omega
  exact ⟨_, hfirst, RiskSite.kind_of_notAfter hbefore hsame hkind, hsame.trans hdepth⟩

/-- No repeating quantifier stands between the cause of a site and its
    quantifier above it. -/
theorem nearest_of_mem_sites {p : Pattern} {site : RiskSite}
    (h : site ∈ (scanRepetition p.root).sites) :
    ∃ way last, site.cause.path = way ++ last :: site.quantifier.path ∧
      last.parent = site.quantifier.node ∧ ∀ step ∈ way, step.parent.isRepeating = false := by
  obtain ⟨-, henclosing⟩ := enclosing_of_mem_sites h
  obtain ⟨-, way, last, hpath, hlast, hway⟩ := Visit.exists_way_of_enclosing henclosing
  exact ⟨way, last, hpath, hlast, fun step hstep => (hway step hstep).1⟩

/-- Score, sites and profile of a pattern agree.  The score is that of the
    profile and is zero exactly when there is no site, the sites are those
    of the scan, the depth of the profile decides what the riskiest site
    is, and each site names the nearest repeating quantifier around its
    cause. -/
theorem assess_consistent :
    p.assess.score = p.profile.staticScore ∧
    (p.assess.score = 0 ↔ p.assess.sites = []) ∧
    p.assess.sites.Perm (scanRepetition p.root).sites ∧
    (2 ≤ p.profile.nestedQuantifierDepth →
      ∃ first, p.assess.riskiest? = some first ∧ first.kind = .nestedQuantifier ∧
        first.depth = p.profile.nestedQuantifierDepth) ∧
    (p.profile.nestedQuantifierDepth ≤ 1 → ∀ site ∈ p.assess.sites,
      site.kind = .overlappingAlternation ∧ site.depth = 1) ∧
    ∀ site ∈ p.assess.sites,
      site.cause ∈ p.root.visits ∧ site.quantifier ∈ p.root.visits ∧
      site.quantifier.node.isRepeating = true ∧
      ∃ way last, site.cause.path = way ++ last :: site.quantifier.path ∧
        last.parent = site.quantifier.node ∧ ∀ step ∈ way, step.parent.isRepeating = false := by
  have hperm := p.sites_assess_perm
  refine ⟨rfl, ?_, hperm, exists_riskiest_of_two_le, fun hdepth site hsite => ?_,
    fun site hsite => ?_⟩
  · rw [← List.length_eq_zero_iff, hperm.length_eq, List.length_eq_zero_iff]
    exact riskScore_scanRepetition_eq_zero_iff
  · exact overlapping_of_depth_le_one hdepth (hperm.mem_iff.mp hsite)
  · have hscan := hperm.mem_iff.mp hsite
    obtain ⟨hplace, hrepeating⟩ := quantifier_mem_visits hscan
    exact ⟨(enclosing_of_mem_sites hscan).1, hplace, hrepeating, nearest_of_mem_sites hscan⟩

end Pattern

end RegexInsight
