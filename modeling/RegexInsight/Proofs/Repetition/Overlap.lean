import Mathlib
import RegexInsight.Proofs.Pattern.ReachCanonical
import RegexInsight.Proofs.Pattern.ReachExact
import RegexInsight.Proofs.Repetition.Follow
import RegexInsight.Repetition

/-! # Overlapping branches

    Branches that do not overlap can be told apart at the place where they
    begin.  Two branches that are plain texts have these texts as their
    only words, so that comparing the texts decides; of any other two the
    first characters differ.  Either way no word of one branch begins with
    a word of the other.  Branches that do overlap have a first character
    in common, unless some branch can be empty. -/

namespace RegexInsight

/-! ## Section 1: Plain texts -/

namespace CharSet

/-- A set of one member has no other. -/
theorem contains_iff_of_isSingle {a : CharSet} {c d : CodePoint} (h : a.isSingle = true)
    (hc : a.contains c = true) : a.contains d = true ↔ d = c := by
  unfold isSingle at h
  split at h
  next i hintervals =>
    have hends : i.lo = i.hi := eq_of_beq h
    simp only [contains_iff, hintervals, List.mem_singleton, exists_eq_left] at hc ⊢
    dsimp only [CodePoint] at *
    omega
  next => exact Bool.noConfusion h

end CharSet

namespace Node

variable {n : Node} {t w : Word}

/-- Nodes that have one word each have one word together. -/
theorem mem_prod_of_literalTexts {nodes : List Node}
    (h : ∀ n ∈ nodes, ∀ t, literalText? n = some t → ∀ w, w ∈ n.language ↔ w = t)
    (ht : literalTexts? nodes = some t) : w ∈ (nodes.map language).prod ↔ w = t := by
  induction nodes generalizing t w with
  | nil =>
    obtain rfl := Option.some.inj ht
    exact Language.mem_one w
  | cons n rest ih =>
    obtain ⟨hn, hrest⟩ := List.forall_mem_cons.mp h
    unfold literalTexts? at ht
    split at ht
    next first later hfirst hlater =>
      obtain rfl := Option.some.inj ht
      rw [List.map_cons, List.prod_cons, Language.mem_mul]
      constructor
      · rintro ⟨u, hu, v, hv, rfl⟩
        rw [(hn first hfirst u).mp hu, (ih hrest hlater).mp hv]
      · rintro rfl
        exact ⟨first, (hn first hfirst first).mpr rfl, later, (ih hrest hlater).mpr rfl, rfl⟩
    next => simp at ht

/-- A node that is a plain text has that text as its only word. -/
theorem IsNormal.mem_language_of_literalText (h : n.IsNormal) (ht : literalText? n = some t) :
    w ∈ n.language ↔ w = t := by
  induction n using Node.induction generalizing t w with
  | node label mark children ih =>
    obtain ⟨hsuits, -⟩ := h _ (mem_preorder_self _)
    have hbelow : ∀ child ∈ children, ∀ t, literalText? child = some t →
        ∀ w, w ∈ child.language ↔ w = t := fun child hchild t ht w =>
      ih child hchild (h.of_child (n := node label mark children) hchild) ht
    rw [language_eq]
    dsimp only [Node.label, Node.children] at hsuits ⊢
    generalize hkinds : children.map Node.label = kinds at hsuits
    unfold literalText? at ht
    split at ht
    next c accepts =>
      -- the one character that is accepted is the one that is written
      cases hsuits with
      | leaf hleaf =>
        cases hleaf with
        | @plain _ modes hplain =>
          cases hplain with
          | literal =>
            split at ht
            next hsingle =>
              obtain rfl := Option.some.inj ht
              have honly := fun d =>
                CharSet.contains_iff_of_isSingle (d := d) hsingle (modes.contains_accepts_single c)
              constructor
              · rintro ⟨d, hd, rfl⟩
                rw [(honly d).mp hd]
              · rintro rfl
                exact ⟨c, (honly c).mpr rfl, rfl⟩
            next => simp at ht
    next => exact mem_prod_of_literalTexts hbelow ht
    next kind =>
      -- an atomic group has no text, and any other has that of its body
      split at ht
      next => simp at ht
      next =>
        cases hsuits with
        | leaf hleaf => cases hleaf with
          | plain hplain => cases hplain
        | group =>
          obtain ⟨body, rfl, -⟩ := List.map_eq_singleton_iff.mp hkinds
          have honly := mem_prod_of_literalTexts (w := w) hbelow ht
          rwa [List.map_singleton, List.prod_singleton] at honly
    next => simp at ht

end Node

/-! ## Section 2: Two branches -/

section Pairs

variable {a b : Node} {u v : Word}

/-- A word of a branch that cannot be empty begins with one of its first
    characters. -/
theorem Node.IsNormal.exists_head (h : a.IsNormal) (hwidth : a.minWidth ≠ 0)
    (hu : u ∈ a.language) : ∃ c rest, u = c :: rest ∧ a.first.contains c = true := by
  cases u with
  | nil => exact absurd (Nat.le_zero.mp (h.covers.min_le [] hu)) hwidth
  | cons c rest => exact ⟨c, rest, rfl, h.covers.first _ hu c rfl⟩

/-- If two branches do not overlap, no word of one begins with a word of the
    other. -/
theorem not_isPrefix_of_not_overlaps (ha : a.IsNormal) (hb : b.IsNormal)
    (hwidth : a.minWidth ≠ 0) (hwidth' : b.minWidth ≠ 0) (h : branchPairOverlaps a b = false)
    (hu : u ∈ a.language) (hv : v ∈ b.language) : ¬ u <+: v ∧ ¬ v <+: u := by
  unfold branchPairOverlaps at h
  split at h
  next s t hs ht =>
    obtain rfl := (ha.mem_language_of_literalText hs).mp hu
    obtain rfl := (hb.mem_language_of_literalText ht).mp hv
    simpa [comparable, Bool.eq_false_iff] using h
  next =>
    obtain ⟨c, rest, rfl, hc⟩ := ha.exists_head hwidth hu
    obtain ⟨d, rest', rfl, hd⟩ := hb.exists_head hwidth' hv
    -- a common beginning would start with a common first character
    have hnone := mt (CharSet.intersects_iff ha.isCanonical_reach.first
      hb.isCanonical_reach.first).mpr (Bool.eq_false_iff.mp h)
    have hne : c ≠ d := by
      rintro rfl
      exact hnone ⟨c, hc, hd⟩
    simp [List.cons_prefix_cons, hne, hne.symm]

/-- Two branches that overlap, and cannot be empty, have a first character in
    common. -/
theorem exists_first_of_overlaps (ha : a.IsNormal) (hb : b.IsNormal)
    (hwidth : a.minWidth ≠ 0) (hwidth' : b.minWidth ≠ 0) (h : branchPairOverlaps a b = true) :
    ∃ c, a.first.contains c = true ∧ b.first.contains c = true := by
  unfold branchPairOverlaps at h
  split at h
  next s t hs ht =>
    obtain ⟨c, rest, rfl, hc⟩ :=
      ha.exists_head hwidth ((ha.mem_language_of_literalText hs).mpr rfl)
    obtain ⟨d, rest', rfl, hd⟩ :=
      hb.exists_head hwidth' ((hb.mem_language_of_literalText ht).mpr rfl)
    have hsame : c = d := by
      simp only [comparable, Bool.or_eq_true, List.isPrefixOf_iff_prefix,
        List.cons_prefix_cons] at h
      rcases h with h | h
      · exact h.1
      · exact h.1.symm
    exact ⟨c, hc, hsame ▸ hd⟩
  next =>
    exact (CharSet.intersects_iff ha.isCanonical_reach.first hb.isCanonical_reach.first).mp h

end Pairs

/-! ## Section 3: All branches -/

/-- Branches are kept apart when none can be empty and no two overlap. -/
theorem branchesOverlap_eq_false_iff {branches : List Node} :
    branchesOverlap branches = false ↔
      (∀ a ∈ branches, a.minWidth ≠ 0) ∧
        branches.Pairwise fun a b => branchPairOverlaps a b = false := by
  induction branches with
  | nil => simp [branchesOverlap]
  | cons a rest ih =>
    simp only [branchesOverlap, Bool.or_eq_false_iff, beq_eq_false_iff_ne, ih, List.any_eq_false,
      Bool.not_eq_true, List.forall_mem_cons, List.pairwise_cons]
    tauto

/-- Some word of the node stands at the beginning of the input. -/
def Node.MatchesAt (n : Node) (input : Word) : Prop :=
  ∃ w ∈ n.language, w <+: input

section Branches

variable {n a b : Node} {i j : Nat}

/-- Without an overlap no word of one branch begins with a word of another. -/
theorem not_isPrefix_of_apart (hn : n.IsNormal) (h : branchesOverlap n.children = false)
    (ha : n.children[i]? = some a) (hb : n.children[j]? = some b) (hne : i ≠ j) {u v : Word}
    (hu : u ∈ a.language) (hv : v ∈ b.language) : ¬ u <+: v := by
  obtain ⟨hwidths, hpairs⟩ := branchesOverlap_eq_false_iff.mp h
  have hmem := List.mem_of_getElem? ha
  have hmem' := List.mem_of_getElem? hb
  obtain ⟨hi, rfl⟩ := List.getElem?_eq_some_iff.mp ha
  obtain ⟨hj, rfl⟩ := List.getElem?_eq_some_iff.mp hb
  -- the pairs are compared with the earlier branch on the left
  rcases Nat.lt_or_gt_of_ne hne with hlt | hlt
  · have hpair := List.pairwise_iff_getElem.mp hpairs i j hi hj hlt
    exact (not_isPrefix_of_not_overlaps (hn.of_child hmem) (hn.of_child hmem') (hwidths _ hmem)
      (hwidths _ hmem') hpair hu hv).1
  · have hpair := List.pairwise_iff_getElem.mp hpairs j i hj hi hlt
    exact (not_isPrefix_of_not_overlaps (hn.of_child hmem') (hn.of_child hmem) (hwidths _ hmem')
      (hwidths _ hmem) hpair hv hu).2

/-- Without an overlap only one branch can match at a place: of two words
    that both stand there, one would begin with the other. -/
theorem eq_of_matchesAt (hn : n.IsNormal) (h : branchesOverlap n.children = false)
    (ha : n.children[i]? = some a) (hb : n.children[j]? = some b) {input : Word}
    (hfirst : a.MatchesAt input) (hsecond : b.MatchesAt input) : i = j := by
  by_contra hne
  obtain ⟨u, hu, hpre⟩ := hfirst
  obtain ⟨v, hv, hpre'⟩ := hsecond
  rcases List.prefix_or_prefix_of_prefix hpre hpre' with huv | hvu
  · exact not_isPrefix_of_apart hn h ha hb hne hu hv huv
  · exact not_isPrefix_of_apart hn h hb ha (Ne.symm hne) hv hu hvu

/-- With an overlap some branch can be empty, or two can begin alike. -/
theorem exists_common_of_overlap (hn : n.IsNormal) (h : branchesOverlap n.children = true) :
    (∃ a ∈ n.children, a.minWidth = 0) ∨
      ∃ (i j : Nat) (a b : Node), i < j ∧ n.children[i]? = some a ∧ n.children[j]? = some b ∧
        ∃ c, a.first.contains c = true ∧ b.first.contains c = true := by
  by_contra hnone
  push Not at hnone
  obtain ⟨hwidths, hapart⟩ := hnone
  refine Bool.eq_false_iff.mp (branchesOverlap_eq_false_iff.mpr ⟨hwidths, ?_⟩) h
  refine List.pairwise_iff_getElem.mpr fun i j hi hj hlt => ?_
  have hmem := List.getElem_mem hi
  have hmem' := List.getElem_mem hj
  by_contra hoverlaps
  obtain ⟨c, hc, hc'⟩ := exists_first_of_overlaps (hn.of_child hmem) (hn.of_child hmem')
    (hwidths _ hmem) (hwidths _ hmem') (Bool.eq_true_of_not_eq_false hoverlaps)
  exact hapart i j _ _ hlt (List.getElem?_eq_getElem hi) (List.getElem?_eq_getElem hj) c hc hc'

end Branches

/-! ## Section 4: Alternations of a pattern -/

namespace Pattern

/-- The branches of an alternation that is not reported as overlapping are
    told apart by what they begin with, and one that is reported has a
    branch that can be empty or two branches with a first character in
    common. -/
theorem overlap_exact {text : Text} {p : Pattern} {n : Node} (h : parse text = .ok p)
    (hn : n ∈ p.root.preorder) :
    (branchesOverlap n.children = false →
      ∀ (i j : Nat) (a b : Node), n.children[i]? = some a → n.children[j]? = some b →
        (i ≠ j → ∀ u ∈ a.language, ∀ v ∈ b.language, ¬ u <+: v) ∧
        ∀ input, a.MatchesAt input → b.MatchesAt input → i = j) ∧
    (branchesOverlap n.children = true →
      (∃ a ∈ n.children, a.minWidth = 0) ∨
      ∃ (i j : Nat) (a b : Node), i < j ∧ n.children[i]? = some a ∧ n.children[j]? = some b ∧
        ∃ c, a.first.contains c = true ∧ b.first.contains c = true) := by
  have hnormal := (isNormal_of_parse h).of_mem hn
  refine ⟨fun hapart i j a b ha hb => ⟨fun hne u hu v hv => ?_, fun input hfirst hsecond => ?_⟩,
    fun hoverlap => ?_⟩
  · exact not_isPrefix_of_apart hnormal hapart ha hb hne hu hv
  · exact eq_of_matchesAt hnormal hapart ha hb hfirst hsecond
  · exact exists_common_of_overlap hnormal hoverlap

/-- Two texts with the same first letter, and letters that begin neither. -/
theorem overlap_exact_of_disjoint :
    ∃ p, parse "(?:a(?:b)|ac|[d-f]+)+".toList = .ok p ∧ ∃ n ∈ p.root.preorder,
      n.kind = .alternation ∧ n.children.length = 3 ∧
        ∀ (i j : Nat) (a b : Node), n.children[i]? = some a → n.children[j]? = some b →
          ∀ input, a.MatchesAt input → b.MatchesAt input → i = j := by
  have hcheck : (parse "(?:a(?:b)|ac|[d-f]+)+".toList).toOption.any (fun p =>
      p.root.preorder.any fun n => n.kind == .alternation && n.children.length == 3 &&
        !branchesOverlap n.children) = true := by decide +kernel
  obtain ⟨p, hp, hcheck⟩ := exists_of_check hcheck
  obtain ⟨n, hn, hcheck⟩ := List.any_eq_true.mp hcheck
  simp only [Bool.and_eq_true, beq_iff_eq, Bool.not_eq_true'] at hcheck
  obtain ⟨⟨hkind, hcount⟩, hapart⟩ := hcheck
  refine ⟨p, hp, n, hn, hkind, hcount, fun i j a b ha hb input hfirst hsecond => ?_⟩
  exact ((overlap_exact hp hn).1 hapart i j a b ha hb).2 input hfirst hsecond

end Pattern

end RegexInsight
