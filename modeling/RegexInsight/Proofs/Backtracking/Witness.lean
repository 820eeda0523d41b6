import Mathlib
import RegexInsight.Proofs.Backtracking.Terminator

/-! # Witnesses

    A witness shows that a node can match something.  It is put together
    from those of the children, just as the words of the node are put
    together from words of the children, so it is itself a word of the
    node.  The plain witness is as short as a word of the node can be.
    With at least one repetition everywhere it need not be short, but it
    is empty only where the node matches nothing else.

    References and conditions have no witness in this sense, and neither
    has a set without a sample. -/

namespace RegexInsight

/-! ## Section 1: Sampled labels -/

namespace Label

/-- A label with a witness: no reference, no condition, and no set from
    which no sample is taken. -/
def isSampled : Label → Bool
  | charClass _ _ accepts => (accepts.sample []).isSome
  | any accepts => (accepts.sample []).isSome
  | backreference _ | recursion _ | conditional _ => false
  | _ => true

/-- A leaf with a witness matches nothing, or it shows one of the characters
    that it matches. -/
theorem IsLeaf.cases_of_isSampled {label : Label} (h : label.IsLeaf)
    (hsampled : label.isSampled = true) (once : Bool) :
    (witnessOf once label [] = [] ∧ label.language [] = 1 ∧ label.reach [] = .nothing) ∨
      ∃ accepts c, accepts.contains c = true ∧ witnessOf once label [] = [c] ∧
        label.language [] = accepts.language ∧ label.reach [] = .one accepts := by
  have hsample : ∀ {accepts : CharSet}, (accepts.sample []).isSome = true →
      ∃ c, accepts.contains c = true ∧ (accepts.sample []).toList = [c] := by
    intro accepts hsome
    obtain ⟨c, hc⟩ := Option.isSome_iff_exists.mp hsome
    exact ⟨c, CharSet.contains_of_sample hc, by simp [hc]⟩
  -- only a sampled set has a character to show
  cases h with
  | empty => exact .inl ⟨rfl, rfl, rfl⟩
  | flags => exact .inl ⟨rfl, rfl, rfl⟩
  | backreference => exact Bool.noConfusion hsampled
  | recursion => exact Bool.noConfusion hsampled
  | @plain _ modes hplain =>
    cases hplain with
    | @literal c => exact .inr ⟨_, c, modes.contains_accepts_single c, rfl, rfl, rfl⟩
    | charClass =>
      obtain ⟨c, hc, hlist⟩ := hsample hsampled
      exact .inr ⟨_, c, hc, hlist, rfl, rfl⟩
    | dot =>
      obtain ⟨c, hc, hlist⟩ := hsample hsampled
      exact .inr ⟨_, c, hc, hlist, rfl, rfl⟩
    | anchor => exact .inl ⟨rfl, rfl, rfl⟩

end Label

namespace Node

/-- A node with a witness at every place below. -/
def IsSampled (n : Node) : Prop :=
  ∀ m ∈ n.preorder, m.label.isSampled = true

theorem IsSampled.of_mem {n m : Node} (h : n.IsSampled) (hm : m ∈ n.preorder) : m.IsSampled :=
  fun k hk => h k (mem_preorder_trans hm hk)

theorem IsSampled.of_child {n child : Node} (h : n.IsSampled) (hchild : child ∈ n.children) :
    child.IsSampled :=
  h.of_mem (child_mem_preorder hchild)

theorem witness_eq (once : Bool) (n : Node) :
    witness once n = witnessOf once n.label (n.children.map (witness once)) := by
  obtain ⟨label, mark, children⟩ := n
  rw [witness, witnesses_eq_map]
  rfl

end Node

/-! ## Section 2: Witnesses are words -/

section Words

variable {once : Bool} {bounds : Bounds} {l : Language CodePoint} {w : Word} {n : Nat}

/-- The number of times that the witness of a quantifier repeats that of the
    body. -/
def witnessCount (once : Bool) (bounds : Bounds) : Nat :=
  if once then max 1 bounds.min else bounds.min

theorem witnessOf_quantifier {mode : QuantifierMode} (hmax : bounds.max ≠ some 0) (w : Word) :
    witnessOf once (.quantifier bounds mode) [w] =
      (List.replicate (witnessCount once bounds) w).flatten := by
  simp [witnessOf, witnessCount, hmax]

theorem witnessOf_of_void {mode : QuantifierMode} (hmax : bounds.max = some 0) (ws : List Word) :
    witnessOf once (.quantifier bounds mode) ws = [] := by
  simp [witnessOf, hmax]

theorem flatten_replicate_mem_pow (hw : w ∈ l) (n : Nat) :
    (List.replicate n w).flatten ∈ l ^ n := by
  refine Language.mem_pow.mpr ⟨List.replicate n w, rfl, List.length_replicate, ?_⟩
  exact fun other hother => List.eq_of_mem_replicate hother ▸ hw

/-- Words of several nodes, one after the other. -/
theorem flatten_mem_prod {nodes : List Node} {word : Node → Word}
    (h : ∀ n ∈ nodes, word n ∈ n.language) :
    (nodes.map word).flatten ∈ (nodes.map Node.language).prod := by
  induction nodes with
  | nil => exact Language.nil_mem_one
  | cons n rest ih =>
    obtain ⟨hn, hrest⟩ := List.forall_mem_cons.mp h
    exact Language.append_mem_mul hn (ih hrest)

/-- A quantifier that can match its body allows its least number of
    repetitions, and one if that is zero. -/
theorem mem_language_of_pow (hbounds : bounds.Ordered) (hmax : bounds.max ≠ some 0)
    (hle : bounds.min ≤ n) (hmin : n ≤ max 1 bounds.min) (hw : w ∈ l ^ n) :
    w ∈ bounds.language l := by
  refine ⟨n, hle, fun high hhigh => ?_, hw⟩
  have hordered := hbounds high hhigh
  have hpos : high ≠ 0 := fun hzero => hmax (hzero ▸ hhigh)
  omega

theorem witnessCount_bounds (once : Bool) (bounds : Bounds) :
    bounds.min ≤ witnessCount once bounds ∧ witnessCount once bounds ≤ max 1 bounds.min := by
  unfold witnessCount
  split <;> omega

/-- If the shortest of the texts that are not empty is empty, all texts are. -/
theorem shortest_filter_eq_nil {texts : List (List CodePoint)}
    (h : shortest (texts.filter fun text => !text.isEmpty) = []) : ∀ text ∈ texts, text = [] := by
  intro text htext
  by_contra hne
  have hmem : text ∈ texts.filter fun text => !text.isEmpty :=
    List.mem_filter.mpr ⟨htext, by simpa using hne⟩
  have hshortest := (shortest_spec (List.ne_nil_of_mem hmem)).1
  rw [h] at hshortest
  simpa using List.of_mem_filter hshortest

/-- One of several words is the witness of a choice. -/
theorem witnessOf_alternation_mem {texts : List (List CodePoint)} (hsome : texts ≠ []) :
    witnessOf once .alternation texts ∈ texts := by
  cases once with
  | false => exact (shortest_spec hsome).1
  | true =>
    show shortest (texts.filter fun text => !text.isEmpty) ∈ texts
    by_cases hempty : texts.filter (fun text => !text.isEmpty) = []
    · -- nothing but empty words to choose from
      rw [hempty]
      obtain ⟨text, htext⟩ := List.exists_mem_of_ne_nil texts hsome
      have hnil : text = [] := shortest_filter_eq_nil (by rw [hempty]; rfl) text htext
      rwa [hnil] at htext
    · exact List.mem_of_mem_filter (shortest_spec hempty).1

theorem witnessOf_mem_language {label : Label} {children : List Node}
    (hsuits : label.Suits (children.map Node.label)) (hsampled : label.isSampled = true)
    (h : ∀ child ∈ children, witness once child ∈ child.language) :
    witnessOf once label (children.map (witness once)) ∈
      label.language (children.map Node.language) := by
  generalize hkinds : children.map Node.label = kinds at hsuits
  cases hsuits with
  | leaf hleaf =>
    obtain rfl := List.map_eq_nil_iff.mp hkinds
    show witnessOf once label [] ∈ label.language []
    rcases hleaf.cases_of_isSampled hsampled once with
      ⟨hword, hlanguage, -⟩ | ⟨accepts, c, hc, hword, hlanguage, -⟩
    · rw [hword, hlanguage]
      exact Language.nil_mem_one
    · rw [hword, hlanguage]
      exact ⟨c, hc, rfl⟩
  | group =>
    obtain ⟨body, rfl, -⟩ := List.map_eq_singleton_iff.mp hkinds
    show [witness once body].flatten ∈ body.language
    rw [List.flatten_singleton]
    exact h body List.mem_cons_self
  | lookaround => exact Language.nil_mem_one
  | @quantifier bounds mode _ hbounds =>
    obtain ⟨body, rfl, -⟩ := List.map_eq_singleton_iff.mp hkinds
    show witnessOf once (.quantifier bounds mode) [witness once body] ∈
      bounds.language body.language
    by_cases hmax : bounds.max = some 0
    · -- no repetition is allowed, and the empty word is the only one
      rw [witnessOf_of_void hmax]
      exact ⟨0, hbounds 0 hmax, fun _ _ => Nat.zero_le _, Language.nil_mem_one⟩
    · rw [witnessOf_quantifier hmax]
      obtain ⟨hle, hmin⟩ := witnessCount_bounds once bounds
      exact mem_language_of_pow hbounds hmax hle hmin
        (flatten_replicate_mem_pow (h body List.mem_cons_self) _)
  | concat => exact flatten_mem_prod h
  | alternation hlength =>
    have hsome : children.map (witness once) ≠ [] := by
      rw [ne_eq, List.map_eq_nil_iff]
      rintro rfl
      simp [← hkinds] at hlength
    obtain ⟨child, hchild, hword⟩ := List.mem_map.mp (witnessOf_alternation_mem hsome)
    rw [← hword]
    exact mem_sum.mpr ⟨child.language, List.mem_map_of_mem hchild, h child hchild⟩
  | conditional => exact Bool.noConfusion hsampled

/-- A witness is a word of its node. -/
theorem Node.IsNormal.witness_mem {n : Node} (h : n.IsNormal) (hsampled : n.IsSampled)
    (once : Bool) : witness once n ∈ n.language := by
  induction n using Node.induction with
  | node label mark children ih =>
    obtain ⟨hsuits, -⟩ := h _ (mem_preorder_self _)
    rw [witness_eq, language_eq]
    refine witnessOf_mem_language hsuits (hsampled _ (mem_preorder_self _)) fun child hchild => ?_
    exact ih child hchild (h.of_child (n := node label mark children) hchild)
      (hsampled.of_child (n := node label mark children) hchild)

end Words

/-! ## Section 3: Shortest witnesses -/

section Shortest

/-- The shortest of some texts is as long as the least of their lengths. -/
theorem length_shortest (texts : List (List CodePoint)) :
    (shortest texts).length = Reach.leastWidth (texts.map List.length) := by
  by_cases hsome : texts = []
  · subst hsome
    rfl
  · obtain ⟨hmem, hleast⟩ := shortest_spec hsome
    obtain ⟨hmem', hleast'⟩ :=
      Reach.leastWidth_spec (mt List.map_eq_nil_iff.mp hsome : texts.map List.length ≠ [])
    obtain ⟨text, htext, hlength⟩ := List.mem_map.mp hmem'
    refine Nat.le_antisymm ?_ (hleast' _ (List.mem_map_of_mem hmem))
    rw [← hlength]
    exact hleast text htext

theorem length_flatten_replicate (n : Nat) (w : Word) :
    (List.replicate n w).flatten.length = w.length * n := by
  simp [List.length_flatten, Nat.mul_comm]

theorem length_flatten_witnesses {nodes : List Node}
    (h : ∀ n ∈ nodes, (witness false n).length = n.minWidth) :
    (nodes.map (witness false)).flatten.length =
      (Reach.sequence (nodes.map Node.reach)).minWidth := by
  induction nodes with
  | nil => rfl
  | cons n rest ih =>
    obtain ⟨hn, hrest⟩ := List.forall_mem_cons.mp h
    rw [List.map_cons, List.map_cons, Reach.minWidth_sequence_cons, List.flatten_cons,
      List.length_append, ih hrest, hn]
    rfl

theorem length_witnessOf {label : Label} {children : List Node}
    (hsuits : label.Suits (children.map Node.label)) (hsampled : label.isSampled = true)
    (h : ∀ child ∈ children, (witness false child).length = child.minWidth) :
    (witnessOf false label (children.map (witness false))).length =
      (label.reach (children.map Node.reach)).minWidth := by
  -- by the label: the width is computed as the witness is put together
  generalize hkinds : children.map Node.label = kinds at hsuits
  cases hsuits with
  | leaf hleaf =>
    obtain rfl := List.map_eq_nil_iff.mp hkinds
    show (witnessOf false label []).length = (label.reach []).minWidth
    rcases hleaf.cases_of_isSampled hsampled false with
      ⟨hword, -, hreach⟩ | ⟨accepts, c, -, hword, -, hreach⟩
    · rw [hword, hreach]
      rfl
    · rw [hword, hreach]
      rfl
  | group =>
    obtain ⟨body, rfl, -⟩ := List.map_eq_singleton_iff.mp hkinds
    show [witness false body].flatten.length = body.minWidth
    rw [List.flatten_singleton]
    exact h body List.mem_cons_self
  | lookaround => rfl
  | @quantifier bounds mode =>
    obtain ⟨body, rfl, -⟩ := List.map_eq_singleton_iff.mp hkinds
    show (witnessOf false (.quantifier bounds mode) [witness false body]).length =
      (Reach.repeated bounds body.reach).minWidth
    by_cases hmax : bounds.max = some 0
    · rw [witnessOf_of_void hmax, Reach.repeated_of_zero hmax]
      rfl
    · rw [witnessOf_quantifier hmax, length_flatten_replicate, Reach.minWidth_repeated hmax,
        h body List.mem_cons_self]
      rfl
  | concat => exact length_flatten_witnesses h
  | alternation =>
    show (shortest (children.map (witness false))).length =
      Reach.leastWidth ((children.map Node.reach).map Reach.minWidth)
    rw [length_shortest, List.map_map, List.map_map]
    exact congrArg Reach.leastWidth (List.map_congr_left h)
  | conditional => exact Bool.noConfusion hsampled

/-- The plain witness is as short as the words of the node can be. -/
theorem Node.IsNormal.length_witness {n : Node} (h : n.IsNormal) (hsampled : n.IsSampled) :
    (witness false n).length = n.minWidth := by
  induction n using Node.induction with
  | node label mark children ih =>
    obtain ⟨hsuits, hreach⟩ := h _ (mem_preorder_self _)
    rw [witness_eq, minWidth, hreach]
    refine length_witnessOf hsuits (hsampled _ (mem_preorder_self _)) fun child hchild => ?_
    exact ih child hchild (h.of_child (n := node label mark children) hchild)
      (hsampled.of_child (n := node label mark children) hchild)

end Shortest

/-! ## Section 4: Witnesses with at least one repetition -/

namespace Reach

variable {items : List Reach}

theorem maxWidth_sequence_eq_zero_iff :
    (sequence items).maxWidth = some 0 ↔ ∀ r ∈ items, r.maxWidth = some 0 := by
  induction items with
  | nil => simp [sequence_nil, nothing]
  | cons r rest ih =>
    rw [maxWidth_sequence_cons, List.forall_mem_cons, ← ih]
    cases r.maxWidth with
    | none => simp
    | some a => cases (sequence rest).maxWidth <;> simp

theorem maxWidth_choice_eq_zero_iff :
    (choice items).maxWidth = some 0 ↔ ∀ r ∈ items, r.maxWidth = some 0 := by
  show maxWidths (items.map maxWidth) = some 0 ↔ _
  constructor
  · intro hzero r hr
    obtain ⟨k, hk, hwidth⟩ := (maxWidths_eq_some hzero).1 _ (List.mem_map_of_mem hr)
    rw [hwidth, Nat.le_zero.mp hk]
  · intro hzero
    induction items with
    | nil => rfl
    | cons r rest ih =>
      obtain ⟨hr, hrest⟩ := List.forall_mem_cons.mp hzero
      rw [List.map_cons, hr, maxWidths, ih hrest]
      rfl

theorem maxWidth_repeated_eq_zero_iff {bounds : Bounds} {r : Reach} (hmax : bounds.max ≠ some 0) :
    (repeated bounds r).maxWidth = some 0 ↔ r.maxWidth = some 0 := by
  constructor
  · intro hzero
    rcases maxWidth_repeated_eq_some hmax hzero with ⟨hbody, -⟩ | ⟨times, width, htimes, hwidth, h⟩
    · exact hbody
    · -- a product is zero only through the width of the body
      rcases Nat.mul_eq_zero.mp h.symm with rfl | rfl
      · exact hwidth
      · exact absurd htimes hmax
  · intro hzero
    rw [repeated, if_neg hmax]
    exact if_pos hzero

end Reach

section AtLeastOnce

variable {children : List Node}

theorem witnessOf_eq_nil_iff {label : Label}
    (hsuits : label.Suits (children.map Node.label)) (hsampled : label.isSampled = true)
    (h : ∀ child ∈ children, witness true child = [] ↔ child.maxWidth = some 0) :
    witnessOf true label (children.map (witness true)) = [] ↔
      (label.reach (children.map Node.reach)).maxWidth = some 0 := by
  have hall : (∀ text ∈ children.map (witness true), text = []) ↔
      ∀ r ∈ children.map Node.reach, r.maxWidth = some 0 := by
    rw [List.forall_mem_map, List.forall_mem_map]
    exact forall₂_congr h
  generalize hkinds : children.map Node.label = kinds at hsuits
  cases hsuits with
  | leaf hleaf =>
    obtain rfl := List.map_eq_nil_iff.mp hkinds
    show witnessOf true label [] = [] ↔ (label.reach []).maxWidth = some 0
    rcases hleaf.cases_of_isSampled hsampled true with
      ⟨hword, -, hreach⟩ | ⟨accepts, c, -, hword, -, hreach⟩
    · exact iff_of_true hword (by rw [hreach]; rfl)
    · exact iff_of_false (by simp [hword]) (by simp [hreach, Reach.one])
  | group =>
    obtain ⟨body, rfl, -⟩ := List.map_eq_singleton_iff.mp hkinds
    show [witness true body].flatten = [] ↔ body.maxWidth = some 0
    rw [List.flatten_singleton]
    exact h body List.mem_cons_self
  | lookaround => exact iff_of_true rfl rfl
  | @quantifier bounds mode =>
    obtain ⟨body, rfl, -⟩ := List.map_eq_singleton_iff.mp hkinds
    show witnessOf true (.quantifier bounds mode) [witness true body] = [] ↔
      (Reach.repeated bounds body.reach).maxWidth = some 0
    by_cases hmax : bounds.max = some 0
    · exact iff_of_true (witnessOf_of_void hmax _) (by rw [Reach.repeated_of_zero hmax]; rfl)
    · -- one repetition at least shows what the body shows
      have hcount : witnessCount true bounds ≠ 0 := by
        simp only [witnessCount, if_true]
        omega
      rw [witnessOf_quantifier hmax, Reach.maxWidth_repeated_eq_zero_iff hmax,
        List.flatten_eq_nil_iff]
      refine Iff.trans ?_ (h body List.mem_cons_self)
      simp [List.mem_replicate, hcount]
  | concat =>
    show (children.map (witness true)).flatten = [] ↔ _
    rw [List.flatten_eq_nil_iff, hall]
    exact Reach.maxWidth_sequence_eq_zero_iff.symm
  | alternation =>
    show shortest ((children.map (witness true)).filter fun text => !text.isEmpty) = [] ↔ _
    -- a branch is left over unless all of them show nothing
    refine Iff.trans ⟨shortest_filter_eq_nil, fun hempty => ?_⟩
      (hall.trans Reach.maxWidth_choice_eq_zero_iff.symm)
    have hnone : (children.map (witness true)).filter (fun text => !text.isEmpty) = [] :=
      List.filter_eq_nil_iff.mpr fun text htext => by simp [hempty text htext]
    rw [hnone]
    rfl
  | conditional => exact Bool.noConfusion hsampled

/-- With at least one repetition everywhere, a witness is empty only where
    the node matches nothing but the empty word. -/
theorem Node.IsNormal.witness_eq_nil_iff {n : Node} (h : n.IsNormal) (hsampled : n.IsSampled) :
    witness true n = [] ↔ n.maxWidth = some 0 := by
  induction n using Node.induction with
  | node label mark children ih =>
    obtain ⟨hsuits, hreach⟩ := h _ (mem_preorder_self _)
    rw [witness_eq, maxWidth, hreach]
    refine witnessOf_eq_nil_iff hsuits (hsampled _ (mem_preorder_self _)) fun child hchild => ?_
    exact ih child hchild (h.of_child (n := node label mark children) hchild)
      (hsampled.of_child (n := node label mark children) hchild)

end AtLeastOnce

end RegexInsight
