import Mathlib
import RegexInsight.Backtracking.Extent
import RegexInsight.Proofs.Backtracking.Witness

/-! # Witnesses within the limits

    Lengths are computed before texts are made, and a node has a length
    exactly when every quantifier below it repeats within the limits of a
    word and of memory.  The length is then that of the witness.  So all
    witnesses of a pattern can be made, or some quantifier is to blame. -/

namespace RegexInsight

/-! ## Section 1: One node -/

namespace Extent

variable {once : Bool}

theorem repeated_eq_ok_iff {length count total : Nat} :
    repeated length count = .ok total ↔
      count ≤ maxWord ∧ length * count ≤ maxLength ∧ total = length * count := by
  -- what fits into memory fits into a word
  have hword : maxLength ≤ maxWord := by decide
  unfold repeated
  split
  next hcount => simp [Nat.not_le.mpr hcount]
  next hcount =>
    split
    next hlong => simp [Nat.not_le.mpr (hword.trans_lt hlong)]
    next =>
      split
      next hlong => simp [Nat.not_le.mpr hlong]
      next hlong => simp [Nat.not_lt.mp hcount, Nat.not_lt.mp hlong, eq_comm]

/-- The lengths of some texts add up to that of the joined text. -/
theorem sum_map_length (texts : List (List CodePoint)) :
    sum (texts.map List.length) = texts.flatten.length := by
  rw [List.length_flatten, sum, List.sum_eq_foldl]

theorem least_map_length (texts : List (List CodePoint)) :
    least (texts.map List.length) = (shortest texts).length := by
  rw [length_shortest]
  cases texts <;> rfl

/-- The witness of a quantifier repeats within the limits. -/
def Fits (once : Bool) (label : Label) (word : Word) : Prop :=
  match label with
  | .quantifier bounds _ =>
    bounds.max ≠ some 0 → witnessCount once bounds ≤ maxWord ∧ word.length ≤ maxLength
  | _ => True

instance (once : Bool) (label : Label) (word : Word) : Decidable (Fits once label word) :=
  match label with
  | .quantifier bounds _ =>
    inferInstanceAs (Decidable (bounds.max ≠ some 0 →
      witnessCount once bounds ≤ maxWord ∧ word.length ≤ maxLength))
  | .empty | .literal _ _ | .charClass _ _ _ | .any _ | .anchor _ | .flags _ | .backreference _
  | .recursion _ | .group _ | .lookaround _ _ | .concat | .alternation | .conditional _ =>
    isTrue trivial

theorem ofLabel_eq_ok_iff {label : Label} {texts : List (List CodePoint)} {total : Nat} :
    ofLabel once label (texts.map List.length) = .ok total ↔
      Fits once label (witnessOf once label texts) ∧
        total = (witnessOf once label texts).length := by
  cases label with
  | quantifier bounds mode =>
    by_cases hmax : bounds.max = some 0
    · simp [ofLabel, Fits, witnessOf, hmax, eq_comm]
    · have hlength : (witnessOf once (.quantifier bounds mode) texts).length =
          texts.flatten.length * witnessCount once bounds := by
        rw [← length_flatten_replicate]
        simp [witnessOf, witnessCount, hmax]
      have hrepeated : ofLabel once (.quantifier bounds mode) (texts.map List.length) =
          repeated texts.flatten.length (witnessCount once bounds) := by
        rw [← sum_map_length]
        simp [ofLabel, witnessCount, hmax]
      rw [hrepeated, repeated_eq_ok_iff, hlength]
      simp [Fits, hmax, hlength, and_assoc]
  | alternation =>
    -- dropping empty texts is dropping the lengths that are zero
    have hfilter : (texts.map List.length).filter (fun length => length != 0) =
        (texts.filter fun text => !text.isEmpty).map List.length := by
      rw [List.filter_map]
      congr 1
      apply List.filter_congr
      intro text _
      cases text <;> rfl
    cases once with
    | false => simp [ofLabel, Fits, witnessOf, least_map_length, eq_comm]
    | true => simp [ofLabel, Fits, witnessOf, hfilter, least_map_length, eq_comm]
  | conditional => cases texts <;> simp [ofLabel, Fits, witnessOf, eq_comm]
  | group => simp [ofLabel, Fits, witnessOf, sum_map_length, eq_comm]
  | concat => simp [ofLabel, Fits, witnessOf, sum_map_length, eq_comm]
  | _ => simp [ofLabel, Fits, witnessOf, eq_comm]

end Extent

/-! ## Section 2: Trees -/

namespace Node

/-- The witness of the node, if it is a quantifier, repeats within the
    limits. -/
def FitsLimits (once : Bool) (n : Node) : Prop :=
  Extent.Fits once n.label (witness once n)

instance (once : Bool) (n : Node) : Decidable (n.FitsLimits once) :=
  inferInstanceAs (Decidable (Extent.Fits _ _ _))

end Node

namespace Extent

variable {once : Bool}

/-- If each of some nodes has the length of its witness exactly under a
    condition of its own, then all together have under all conditions. -/
theorem ofNodes_eq_ok_iff {P : Node → Prop} {nodes : List Node}
    (h : ∀ n ∈ nodes, ∀ length, ofNode once n = .ok length ↔
      P n ∧ length = (witness once n).length) {lengths : List Nat} :
    ofNodes once nodes = .ok lengths ↔
      (∀ n ∈ nodes, P n) ∧ lengths = (nodes.map (witness once)).map List.length := by
  induction nodes generalizing lengths with
  | nil => simp [ofNodes, eq_comm]
  | cons n rest ih =>
    obtain ⟨hn, hrest⟩ := List.forall_mem_cons.mp h
    simp only [ofNodes, bind_eq_ok_iff, hn, ih hrest, List.forall_mem_cons, List.map_cons]
    constructor
    · rintro ⟨length, ⟨hfits, rfl⟩, later, ⟨hlater, rfl⟩, hlengths⟩
      exact ⟨⟨hfits, hlater⟩, (Except.ok.inj hlengths).symm⟩
    · rintro ⟨⟨hfits, hlater⟩, rfl⟩
      exact ⟨_, ⟨hfits, rfl⟩, _, ⟨hlater, rfl⟩, rfl⟩

/-- A node has a length exactly when all quantifiers at and below it stay
    within the limits, and it is that of its witness. -/
theorem ofNode_eq_ok_iff {n : Node} {length : Nat} :
    ofNode once n = .ok length ↔
      (∀ m ∈ n.preorder, m.FitsLimits once) ∧ length = (witness once n).length := by
  induction n using Node.induction generalizing length with
  | node label mark children ih =>
    -- the limits of the node itself are about what it makes of the children's witnesses
    have hself : (Node.node label mark children).FitsLimits once ↔
        Fits once label (witnessOf once label (children.map (witness once))) := by
      rw [Node.FitsLimits, Node.witness_eq]
      rfl
    rw [ofNode, bind_eq_ok_iff, Node.preorder_node, List.forall_mem_cons, List.forall_mem_flatMap,
      hself, Node.witness_eq]
    constructor
    · rintro ⟨lengths, hlengths, hlabel⟩
      obtain ⟨hbelow, rfl⟩ := (ofNodes_eq_ok_iff fun child hchild _ => ih child hchild).mp hlengths
      obtain ⟨hfits, rfl⟩ := ofLabel_eq_ok_iff.mp hlabel
      exact ⟨⟨hfits, hbelow⟩, rfl⟩
    · rintro ⟨⟨hfits, hbelow⟩, rfl⟩
      exact ⟨_, (ofNodes_eq_ok_iff fun child hchild _ => ih child hchild).mpr ⟨hbelow, rfl⟩,
        ofLabel_eq_ok_iff.mpr ⟨hfits, rfl⟩⟩

end Extent

/-! ## Section 3: Patterns -/

namespace Pattern

variable {text : Text} {p : Pattern}

/-- All witnesses can be made exactly when no quantifier repeats beyond the
    limits. -/
theorem witnesses_eq_ok_iff {once : Bool} {texts : List (List CodePoint)} :
    p.witnesses once = .ok texts ↔
      (∀ n ∈ p.root.preorder, n.FitsLimits once) ∧ texts = p.shortestWitnesses once := by
  unfold witnesses
  cases hlength : Extent.ofNode once p.root with
  | ok length =>
    obtain ⟨hfits, -⟩ := Extent.ofNode_eq_ok_iff.mp hlength
    exact ⟨fun h => ⟨hfits, (Except.ok.inj h).symm⟩, fun ⟨_, h⟩ => congrArg Except.ok h.symm⟩
  | error e =>
    refine iff_of_false nofun ?_
    rintro ⟨hfits, -⟩
    rw [Extent.ofNode_eq_ok_iff.mpr ⟨hfits, rfl⟩] at hlength
    exact nomatch hlength

/-- The witness of a node stands under the number of the node. -/
theorem shortestWitnesses_getElem? (h : parse text = .ok p) (once : Bool) {n : Node}
    (hn : n ∈ p.root.preorder) : (p.shortestWitnesses once)[n.index]? = some (witness once n) := by
  obtain ⟨count, hnumbered⟩ := numbered_of_parse h
  have hplace := hnumbered.completed_getElem?.mpr ⟨hn, rfl⟩
  rw [shortestWitnesses, List.getElem?_map, hplace, Option.map_some]

end Pattern

end RegexInsight
