import Mathlib
import RegexInsight.Proofs.Pattern.Language
import RegexInsight.Proofs.Pattern.NormalForm
import RegexInsight.Proofs.Pattern.Way

/-! # Derivations

    How a node comes by a word.  A leaf has its word by itself; an inner
    node puts it together from parts, which are derivations again: a
    sequence takes one from each item, a choice from one branch, and a
    quantifier one for each repetition.  The words derived from a node are
    those of its language.

    A derivation occurs inside another one between the word to its left
    and the word to its right. -/

namespace RegexInsight

/-- A word with the node that it is derived from and the derivations that it
    is put together from. -/
inductive Derivation where
  | node (source : Node) (word : Word) (parts : List Derivation)

namespace Derivation

/-! ## Section 1: Valid derivations -/

def source : Derivation → Node
  | node source _ _ => source

def word : Derivation → Word
  | node _ word _ => word

def parts : Derivation → List Derivation
  | node _ _ parts => parts

/-- The words of some derivations, one after the other. -/
def joined (parts : List Derivation) : Word :=
  parts.flatMap word

/-- The parts that an inner node with a given label and children can take. -/
inductive Arranges : Label → List Node → List Derivation → Prop where
  | group {kind : GroupKind} {part : Derivation} : Arranges (.group kind) [part.source] [part]
  /-- What is looked at is not consumed. -/
  | lookaround {direction : LookDirection} {negated : Bool} {children : List Node} :
      Arranges (.lookaround direction negated) children []
  | quantifier {bounds : Bounds} {mode : QuantifierMode} {body : Node} {parts : List Derivation}
      (hmin : bounds.min ≤ parts.length)
      (hmax : ∀ high, bounds.max = some high → parts.length ≤ high)
      (hsources : ∀ part ∈ parts, part.source = body) :
      Arranges (.quantifier bounds mode) [body] parts
  | concat {parts : List Derivation} : Arranges .concat (parts.map source) parts
  | alternation {branches : List Node} {part : Derivation} (h : part.source ∈ branches) :
      Arranges .alternation branches [part]
  | conditional {condition : Text} {branches : List Node} {part : Derivation}
      (h : part.source ∈ branches) : Arranges (.conditional condition) branches [part]
  /-- A conditional without a second branch can pass over the first. -/
  | passed {condition : Text} {branch : Node} : Arranges (.conditional condition) [branch] []

/-- A leaf derives a word of its language, and an inner node one that is put
    together from its parts. -/
inductive IsValid : Derivation → Prop where
  | leaf {source : Node} {word : Word} (hchildren : source.children = [])
      (hword : word ∈ source.label.language []) : IsValid (.node source word [])
  | inner {source : Node} {parts : List Derivation}
      (harranges : Arranges source.label source.children parts)
      (hparts : ∀ part ∈ parts, IsValid part) : IsValid (.node source (joined parts) parts)

variable {d e f : Derivation} {parts before after : List Derivation} {w left right : Word}

@[simp] theorem joined_nil : joined [] = [] := rfl

@[simp] theorem joined_cons : joined (d :: parts) = d.word ++ joined parts := rfl

@[simp] theorem joined_append : joined (before ++ after) = joined before ++ joined after :=
  List.flatMap_append

/-- A word that is put together starts with one of its parts. -/
theorem head?_joined {c : CodePoint} (h : (joined parts).head? = some c) :
    ∃ part ∈ parts, part.word.head? = some c := by
  induction parts with
  | nil => simp at h
  | cons part rest ih =>
    rw [joined_cons, List.head?_append] at h
    cases hword : part.word.head? with
    | some c' =>
      rw [hword] at h
      exact ⟨part, List.mem_cons_self, hword.trans h⟩
    | none =>
      rw [hword] at h
      obtain ⟨other, hother, hhead⟩ := ih h
      exact ⟨other, List.mem_cons_of_mem _ hother, hhead⟩

theorem IsValid.part_isValid (h : d.IsValid) (he : e ∈ d.parts) : e.IsValid := by
  cases h with
  | leaf => exact absurd he List.not_mem_nil
  | inner _ hparts => exact hparts e he

/-- A derivation with parts puts its word together from them. -/
theorem IsValid.arranges (h : d.IsValid) (he : e ∈ d.parts) :
    Arranges d.source.label d.source.children d.parts ∧ d.word = joined d.parts := by
  cases h with
  | leaf => exact absurd he List.not_mem_nil
  | inner harranges => exact ⟨harranges, rfl⟩

/-! ## Section 2: The words derived -/

theorem joined_mem_prod (h : ∀ part ∈ parts, part.word ∈ part.source.language) :
    joined parts ∈ (parts.map fun part => part.source.language).prod := by
  induction parts with
  | nil => exact Language.nil_mem_one
  | cons part rest ih =>
    obtain ⟨hpart, hrest⟩ := List.forall_mem_cons.mp h
    exact Language.append_mem_mul hpart (ih hrest)

/-- As many parts of one node as there are repetitions. -/
theorem joined_mem_pow {body : Node} (h : ∀ part ∈ parts, part.word ∈ part.source.language)
    (hsources : ∀ part ∈ parts, part.source = body) :
    joined parts ∈ body.language ^ parts.length := by
  -- the product of equal languages is a power
  have hsame : (parts.map fun part => part.source.language) =
      List.replicate parts.length body.language := by
    rw [← List.map_const]
    exact List.map_congr_left fun part hpart => congrArg Node.language (hsources part hpart)
  have hprod := joined_mem_prod h
  rwa [hsame, List.prod_replicate] at hprod

theorem IsValid.word_mem (h : d.IsValid) : d.word ∈ d.source.language := by
  induction h with
  | @leaf source word hchildren hword =>
    show word ∈ source.language
    rw [Node.language_eq, hchildren]
    exact hword
  | @inner source parts harranges _ ih =>
    show joined parts ∈ source.language
    rw [Node.language_eq]
    -- the label and the children settle which parts there are
    generalize source.label = label, source.children = children at harranges
    cases harranges with
    | @group _ part =>
      show part.word ++ [] ∈ part.source.language
      rw [List.append_nil]
      exact ih part List.mem_cons_self
    | lookaround => exact Language.nil_mem_one
    | quantifier hmin hmax hsources =>
      exact ⟨parts.length, hmin, hmax, joined_mem_pow ih hsources⟩
    | concat =>
      show joined parts ∈ ((parts.map Derivation.source).map Node.language).prod
      rw [List.map_map]
      exact joined_mem_prod ih
    | @alternation _ part hbranch =>
      show part.word ++ [] ∈ (children.map Node.language).sum
      rw [List.append_nil]
      exact mem_sum.mpr ⟨_, List.mem_map_of_mem hbranch, ih part List.mem_cons_self⟩
    | @conditional condition _ part hbranch =>
      have hword : part.word ∈ (children.map Node.language).sum :=
        mem_sum.mpr ⟨_, List.mem_map_of_mem hbranch, ih part List.mem_cons_self⟩
      show part.word ++ [] ∈ Label.language (.conditional condition) _
      rw [List.append_nil, Label.language]
      split
      · exact .inl hword
      · exact hword
    | @passed condition branch =>
      show [] ∈ Label.language (.conditional condition) [branch.language]
      rw [Label.language, if_pos List.length_singleton]
      exact .inr Language.nil_mem_one

end Derivation

namespace Node

/-- The derivation `d` shows how `n` comes by a word. -/
def Derives (n : Node) (d : Derivation) : Prop :=
  d.source = n ∧ d.IsValid

/-- Every word of a node is derived from it. -/
def IsDerivable (n : Node) : Prop :=
  ∀ w ∈ n.language, ∃ d, n.Derives d ∧ d.word = w

theorem exists_parts {nodes : List Node} (h : ∀ n ∈ nodes, n.IsDerivable) {w : Word}
    (hw : w ∈ (nodes.map language).prod) :
    ∃ parts : List Derivation, (∀ part ∈ parts, part.IsValid) ∧
      parts.map Derivation.source = nodes ∧ Derivation.joined parts = w := by
  induction nodes generalizing w with
  | nil =>
    obtain rfl := (Language.mem_one w).mp hw
    exact ⟨[], nofun, rfl, rfl⟩
  | cons n rest ih =>
    obtain ⟨hn, hrest⟩ := List.forall_mem_cons.mp h
    obtain ⟨a, ha, b, hb, rfl⟩ := Language.mem_mul.mp hw
    obtain ⟨d, ⟨rfl, hd⟩, rfl⟩ := hn a ha
    obtain ⟨parts, hparts, rfl, rfl⟩ := ih hrest hb
    exact ⟨d :: parts, List.forall_mem_cons.mpr ⟨hd, hparts⟩, rfl, rfl⟩

section Parts

variable {n : Node} {w : Word}

/-- A node derives what it puts together from parts that suit it. -/
theorem exists_derives {parts : List Derivation}
    (harranges : Derivation.Arranges n.label n.children parts)
    (hparts : ∀ part ∈ parts, part.IsValid) :
    ∃ d, n.Derives d ∧ d.word = Derivation.joined parts :=
  ⟨.node n (Derivation.joined parts) parts, ⟨rfl, .inner harranges hparts⟩, rfl⟩

/-- One part suffices where one child is taken. -/
theorem exists_derives_of_mem {child : Node} (hchild : child.IsDerivable)
    (harranges : ∀ part : Derivation, part.source = child →
      Derivation.Arranges n.label n.children [part]) (hw : w ∈ child.language) :
    ∃ d, n.Derives d ∧ d.word = w := by
  obtain ⟨part, ⟨hsource, hpart⟩, rfl⟩ := hchild w hw
  have hparts : ∀ other ∈ [part], other.IsValid := fun other hother =>
    List.mem_singleton.mp hother ▸ hpart
  obtain ⟨d, hd, hword⟩ := exists_derives (harranges part hsource) hparts
  exact ⟨d, hd, by simpa using hword⟩

/-- A choice takes one of the children, whichever it is. -/
theorem exists_derives_of_sum (hchildren : ∀ child ∈ n.children, child.IsDerivable)
    (harranges : ∀ part : Derivation, part.source ∈ n.children →
      Derivation.Arranges n.label n.children [part])
    (hw : w ∈ (n.children.map language).sum) : ∃ d, n.Derives d ∧ d.word = w := by
  obtain ⟨l, hl, hword⟩ := mem_sum.mp hw
  obtain ⟨branch, hbranch, rfl⟩ := List.mem_map.mp hl
  exact exists_derives_of_mem (hchildren branch hbranch)
    (fun part hsource => harranges part (hsource ▸ hbranch)) hword

/-- A repetition takes as many parts as it has repetitions. -/
theorem exists_derives_of_pow {bounds : Bounds} {mode : QuantifierMode} {body : Node}
    (hlabel : n.label = .quantifier bounds mode) (hchildren : n.children = [body])
    (hbody : body.IsDerivable) (hw : w ∈ bounds.language body.language) :
    ∃ d, n.Derives d ∧ d.word = w := by
  obtain ⟨count, hmin, hmax, hw⟩ := hw
  have hbodies : ∀ other ∈ List.replicate count body, other.IsDerivable := fun other hother =>
    List.eq_of_mem_replicate hother ▸ hbody
  -- a repetition is a sequence of equal items
  have hprod : w ∈ ((List.replicate count body).map language).prod := by
    rwa [List.map_replicate, List.prod_replicate]
  obtain ⟨parts, hparts, hsources, rfl⟩ := exists_parts hbodies hprod
  have hlength : parts.length = count := by
    simpa using congrArg List.length hsources
  refine exists_derives ?_ hparts
  rw [hlabel, hchildren]
  refine .quantifier (hlength ▸ hmin) (hlength ▸ hmax) fun part hpart => ?_
  exact List.eq_of_mem_replicate (hsources ▸ List.mem_map_of_mem hpart)

/-- Every word of a normal node is put together from words of its children. -/
theorem isDerivable_of_children
    (hsuits : n.label.Suits (n.children.map Node.label))
    (hchildren : ∀ child ∈ n.children, child.IsDerivable) : n.IsDerivable := by
  intro w hw
  rw [language_eq] at hw
  obtain ⟨label, mark, children⟩ := n
  dsimp only [Node.label, Node.children] at hsuits hchildren hw
  generalize hkinds : children.map Node.label = kinds at hsuits
  cases hsuits with
  | leaf =>
    obtain rfl := List.map_eq_nil_iff.mp hkinds
    exact ⟨.node _ w [], ⟨rfl, .leaf rfl hw⟩, rfl⟩
  | group =>
    obtain ⟨body, rfl, -⟩ := List.map_eq_singleton_iff.mp hkinds
    exact exists_derives_of_mem (hchildren body List.mem_cons_self)
      (fun part hsource => hsource ▸ .group) hw
  | lookaround =>
    obtain rfl := (Language.mem_one w).mp hw
    exact @exists_derives (.node _ mark children) [] .lookaround nofun
  | quantifier =>
    obtain ⟨body, rfl, -⟩ := List.map_eq_singleton_iff.mp hkinds
    exact exists_derives_of_pow rfl rfl (hchildren body List.mem_cons_self) hw
  | concat =>
    obtain ⟨parts, hparts, rfl, rfl⟩ := exists_parts hchildren hw
    exact exists_derives .concat hparts
  | alternation => exact exists_derives_of_sum hchildren (fun _ => .alternation) hw
  | conditional =>
    rw [Label.language] at hw
    split at hw
    next hlength =>
      rcases hw with hw | hw
      · exact exists_derives_of_sum hchildren (fun _ => .conditional) hw
      · -- nothing is taken, which the only branch allows
        obtain rfl := (Language.mem_one w).mp hw
        obtain ⟨branch, rfl⟩ := List.length_eq_one_iff.mp ((List.length_map _).symm.trans hlength)
        exact @exists_derives (.node _ mark [branch]) [] .passed nofun
    next => exact exists_derives_of_sum hchildren (fun _ => .conditional) hw

theorem IsNormal.isDerivable (h : n.IsNormal) : n.IsDerivable := by
  induction n using induction with
  | node label mark children ih =>
    obtain ⟨hsuits, -⟩ := h _ (mem_preorder_self _)
    refine isDerivable_of_children hsuits fun child hchild => ?_
    exact ih child hchild (h.of_mem (child_mem_preorder (n := .node label mark children) hchild))

/-- The words of a normal node are those derived from it. -/
theorem IsNormal.mem_language_iff (h : n.IsNormal) :
    w ∈ n.language ↔ ∃ d, n.Derives d ∧ d.word = w := by
  constructor
  · exact h.isDerivable w
  · rintro ⟨d, ⟨rfl, hd⟩, rfl⟩
    exact hd.word_mem

end Parts

end Node

namespace Derivation

/-! ## Section 3: Occurrences -/

variable {d e f : Derivation} {before after : List Derivation} {left right : Word}

/-- The derivation `e` occurs in `d`, with the word `left` before it and the
    word `right` behind it. -/
inductive Occurs (d : Derivation) : Derivation → Word → Word → Prop where
  | here : Occurs d d [] []
  | part {f e : Derivation} {before after : List Derivation} {left right : Word}
      (h : Occurs d f left right) (hparts : f.parts = before ++ e :: after) :
      Occurs d e (left ++ joined before) (joined after ++ right)

theorem Occurs.isValid (hd : d.IsValid) (h : d.Occurs e left right) : e.IsValid := by
  induction h with
  | here => exact hd
  | part _ hparts ih => exact ih.part_isValid (by simp [hparts])

/-- What occurs stands between the words around it. -/
theorem Occurs.word_eq (hd : d.IsValid) (h : d.Occurs e left right) :
    d.word = left ++ e.word ++ right := by
  induction h with
  | here => simp
  | @part f e before after left right hf hparts ih =>
    obtain ⟨-, hword⟩ := (hf.isValid hd).arranges (e := e) (by simp [hparts])
    rw [ih, hword, hparts]
    simp [List.append_assoc]

/-- The source of a part is a child of the source of the whole; the parts of
    a sequence come from all its items in order. -/
theorem Arranges.exists_split {label : Label} {children : List Node}
    (h : Arranges label children (before ++ e :: after)) :
    ∃ passed ahead : List Node, children = passed.reverse ++ e.source :: ahead ∧
      (label = .concat → ahead = after.map source) := by
  have hmem : e ∈ before ++ e :: after := by simp
  generalize hparts : before ++ e :: after = parts at h hmem
  cases h with
  | group =>
    obtain rfl := List.mem_singleton.mp hmem
    exact ⟨[], [], rfl, nofun⟩
  | lookaround => exact absurd hmem List.not_mem_nil
  | quantifier _ _ hsources => exact ⟨[], [], by rw [hsources e hmem]; rfl, nofun⟩
  | concat =>
    subst hparts
    exact ⟨(before.map source).reverse, after.map source, by simp, fun _ => rfl⟩
  | alternation hbranch | conditional hbranch =>
    obtain rfl := List.mem_singleton.mp hmem
    obtain ⟨passed, ahead, hsplit⟩ := List.append_of_mem hbranch
    exact ⟨passed.reverse, ahead, by simpa using hsplit, nofun⟩
  | passed => exact absurd hmem List.not_mem_nil

/-- Only sequences and repetitions put something behind a part. -/
theorem Arranges.eq_nil {label : Label} {children : List Node}
    (h : Arranges label children (before ++ e :: after)) (hconcat : label ≠ .concat)
    (hrepeats : label.isRepeating = false) : after = [] := by
  have hlength : (before ++ e :: after).length ≤ 1 → after = [] := by
    intro hle
    simp only [List.length_append, List.length_cons] at hle
    exact List.eq_nil_of_length_eq_zero (by omega)
  refine hlength ?_
  generalize before ++ e :: after = parts at h
  cases h with
  | group => exact Nat.le_refl 1
  | lookaround => exact Nat.zero_le 1
  | @quantifier bounds mode body _ _ hmax =>
    have hrepeats : bounds.repeats = false := hrepeats
    unfold Bounds.repeats at hrepeats
    split at hrepeats
    next => simp at hrepeats
    next high hhigh => exact (hmax high hhigh).trans (by simpa using hrepeats)
  | concat => exact absurd rfl hconcat
  | alternation => exact Nat.le_refl 1
  | conditional => exact Nat.le_refl 1
  | passed => exact Nat.zero_le 1

/-- A part stands one step below the whole. -/
theorem IsValid.exists_step (h : f.IsValid) (hparts : f.parts = before ++ e :: after) :
    ∃ passed ahead : List Node, f.source.children = passed.reverse ++ e.source :: ahead ∧
      (f.source.label = .concat → ahead = after.map source) := by
  obtain ⟨harranges, -⟩ := h.arranges (e := e) (by simp [hparts])
  exact (hparts ▸ harranges).exists_split

/-- Where a derivation occurs, its source is reached. -/
theorem Occurs.exists_leadsTo (hd : d.IsValid) (h : d.Occurs e left right) :
    ∃ way, d.source.LeadsTo way e.source := by
  induction h with
  | here => exact ⟨[], .here⟩
  | part hf hparts ih =>
    obtain ⟨way, hway⟩ := ih
    obtain ⟨passed, ahead, hsplit, -⟩ := (hf.isValid hd).exists_step hparts
    exact ⟨_, hway.down hsplit⟩

/-- When no number is given twice, the whole is the only derivation in it
    with its source. -/
theorem Occurs.eq_self (hd : d.IsValid) (hunique : d.source.indices.Nodup)
    (h : d.Occurs e left right) (hsource : e.source = d.source) : e = d ∧ right = [] := by
  cases h with
  | here => exact ⟨rfl, rfl⟩
  | part hf hparts =>
    obtain ⟨way, hway⟩ := hf.exists_leadsTo hd
    obtain ⟨passed, ahead, hsplit, -⟩ := (hf.isValid hd).exists_step hparts
    -- a part would stand strictly below the source of the whole
    have hdown := hway.down hsplit
    rw [hsource] at hdown
    have hnil := Node.LeadsTo.unique hunique hdown .here
    exact absurd hnil (List.cons_ne_nil _ _)

/-- What occurs with a source one step below another one is a part of a
    derivation from that one. -/
theorem Occurs.exists_parent (hd : d.IsValid) (hunique : d.source.indices.Nodup)
    (h : d.Occurs e left right) {step : Step} {way : List Step}
    (hway : d.source.LeadsTo (step :: way) e.source) :
    ∃ f before after left' right', d.Occurs f left' right' ∧ f.source = step.parent ∧
      f.parts = before ++ e :: after ∧ right = joined after ++ right' ∧
      (step.parent.label = .concat → step.after = after.map source) := by
  cases h with
  | here =>
    have hnil := Node.LeadsTo.unique hunique hway .here
    exact absurd hnil (List.cons_ne_nil _ _)
  | @part f _ before after left' right' hf hparts =>
    obtain ⟨above, habove⟩ := hf.exists_leadsTo hd
    obtain ⟨passed, ahead, hsplit, hahead⟩ := (hf.isValid hd).exists_step hparts
    -- both ways lead to the same node, so they end in the same step
    obtain ⟨rfl, -⟩ := List.cons.inj (Node.LeadsTo.unique hunique hway (habove.down hsplit))
    exact ⟨f, before, after, left', right', hf, rfl, hparts, rfl, hahead⟩

end Derivation

end RegexInsight
