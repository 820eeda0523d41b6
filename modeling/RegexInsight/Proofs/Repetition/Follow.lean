import Mathlib
import RegexInsight.Proofs.Pattern.ArenaTree
import RegexInsight.Proofs.Pattern.Derivation
import RegexInsight.Proofs.Pattern.ReachCanonical
import RegexInsight.Proofs.Pattern.ReachExact
import RegexInsight.Proofs.Repetition.Nesting

/-! # What follows inside a repeated body

    The characters collected on the way up from a node to the repeating
    quantifier around it are those that come right after the node in some
    derivation from the quantifier.  On the way up, each sequence
    contributes what its later items can start with; once all of them can
    be empty, the next iteration follows.

    If nothing that the node consumes can follow it, then it must go on as
    long as it can: where it starts determines where it ends. -/

namespace RegexInsight

/-! ## Section 1: One step up -/

namespace Node

variable {n m : Node} {path : List Step}

theorem IsNormal.of_leadsTo (h : n.IsNormal) (hway : n.LeadsTo path m) : m.IsNormal :=
  h.of_mem (mem_preorder.mpr ⟨path, hway⟩)

theorem kind_ne_concat (h : n.label ≠ .concat) : n.kind ≠ .concat := by
  unfold kind
  cases hlabel : n.label with
  | concat => exact absurd hlabel h
  | _ => nofun

theorem IsNormal.of_child (h : n.IsNormal) {child : Node} (hchild : child ∈ n.children) :
    child.IsNormal :=
  h.of_mem (child_mem_preorder hchild)

end Node


section Collecting

variable {step : Step} {up : List Step} {c : CodePoint}

/-- Siblings start as the sequence of them does, and let nothing past them
    if that sequence must consume something. -/
theorem firstOfSiblings_eq (nodes : List Node) :
    firstOfSiblings nodes = ((Reach.sequence (nodes.map Node.reach)).first,
      decide (0 < (Reach.sequence (nodes.map Node.reach)).minWidth)) := by
  induction nodes with
  | nil => rfl
  | cons n rest ih =>
    have hmin : (Reach.sequence ((n :: rest).map Node.reach)).minWidth =
        n.minWidth + (Reach.sequence (rest.map Node.reach)).minWidth := rfl
    unfold firstOfSiblings
    rw [ih, hmin]
    split
    next hpos =>
      have hfirst : (Reach.sequence ((n :: rest).map Node.reach)).first = n.first :=
        if_pos hpos
      rw [hfirst, decide_eq_true (Nat.add_pos_left hpos _)]
    next hpos =>
      have hfirst : (Reach.sequence ((n :: rest).map Node.reach)).first =
          n.first ∪ (Reach.sequence (rest.map Node.reach)).first := if_neg hpos
      rw [hfirst, Nat.eq_zero_of_not_pos hpos, Nat.zero_add]

theorem followInBody_of_repeating (h : step.parent.isRepeating = true) :
    followInBody (step :: up) = step.parent.first := by
  rw [followInBody, if_pos h]

/-- In a sequence the later items follow, and what follows the sequence if
    they can all be empty. -/
theorem contains_followInBody_of_concat (hrepeating : step.parent.isRepeating = false)
    (hconcat : step.parent.kind = .concat) :
    (followInBody (step :: up)).contains c = true ↔
      (Reach.sequence (step.after.map Node.reach)).first.contains c = true ∨
        (Reach.sequence (step.after.map Node.reach)).minWidth = 0 ∧
          (followInBody up).contains c = true := by
  rw [followInBody, if_neg (Bool.eq_false_iff.mp hrepeating), if_pos hconcat, firstOfSiblings_eq]
  dsimp only
  split
  next hblocked => simp [Nat.pos_iff_ne_zero.mp (of_decide_eq_true hblocked)]
  next hblocked =>
    have hzero : (Reach.sequence (step.after.map Node.reach)).minWidth = 0 := by
      simpa using hblocked
    simp [hzero, CharSet.contains_union]

theorem followInBody_of_not_concat (hrepeating : step.parent.isRepeating = false)
    (hconcat : step.parent.kind ≠ .concat) : followInBody (step :: up) = followInBody up := by
  rw [followInBody, if_neg (Bool.eq_false_iff.mp hrepeating), if_neg hconcat]

theorem isCanonical_followInBody {n m : Node} {path : List Step} (hn : n.IsNormal)
    (h : n.LeadsTo path m) : (followInBody path).IsCanonical := by
  induction h with
  | here => exact canonical_nil
  | @down path parent child before after hway hchildren ih =>
    have hparent := hn.of_leadsTo hway
    unfold followInBody
    split
    · exact hparent.isCanonical_reach.first
    split
    · rw [firstOfSiblings_eq]
      dsimp only
      split
      · -- the siblings are children of a normal node
        refine (Reach.isCanonical_sequence fun r hr => ?_).first
        obtain ⟨sibling, hsibling, rfl⟩ := List.mem_map.mp hr
        have hchild : sibling ∈ parent.children := by
          rw [hchildren]
          simp [hsibling]
        exact (hparent.of_child hchild).isCanonical_reach
      · exact CharSet.isCanonical_union _ _
    · exact ih

end Collecting

/-! ## Section 2: The regular part -/

namespace Label

/-- Labels that stand for operations on languages: no references, no
    assertions, nothing that keeps what it matched, and no class without
    members. -/
def IsRegular : Label → Prop
  | empty | literal _ _ | any _ | flags _ | concat | alternation => True
  | charClass _ _ accepts => ∃ c, accepts.contains c = true
  | group kind => kind.isAtomic = false
  | quantifier _ mode => mode ≠ .possessive
  | anchor _ | lookaround _ _ | backreference _ | recursion _ | conditional _ => False

/-- A quantifier that never matches its body. -/
def isVoid : Label → Bool
  | quantifier bounds _ => bounds.max == some 0
  | _ => false

/-- A quantifier that does not repeat its body, but can match it, matches it
    at most once. -/
theorem max_eq_one {bounds : Bounds} {mode : QuantifierMode}
    (hrepeating : (quantifier bounds mode).isRepeating = false)
    (hvoid : (quantifier bounds mode).isVoid = false) : bounds.max = some 1 := by
  have hrepeats : bounds.repeats = false := hrepeating
  have hsome : (bounds.max == some 0) = false := hvoid
  unfold Bounds.repeats at hrepeats
  split at hrepeats
  next => simp at hrepeats
  next high hhigh =>
    have hle : high ≤ 1 := by simpa using hrepeats
    have hzero : high ≠ 0 := by simpa [hhigh] using hsome
    rw [hhigh, show high = 1 by omega]

theorem IsRegular.classInhabited {label : Label} (h : label.IsRegular) : label.ClassInhabited := by
  cases label with
  | charClass => exact h
  | _ => trivial

end Label

namespace Node

variable {q n : Node}

/-- A node whose tree is regular in all its parts. -/
def IsRegular (n : Node) : Prop :=
  ∀ m ∈ n.preorder, m.label.IsRegular

theorem IsRegular.of_child (h : n.IsRegular) {child : Node} (hchild : child ∈ n.children) :
    child.IsRegular :=
  fun m hm => h m (mem_preorder_of_child hchild hm)

theorem IsRegular.of_leadsTo (h : n.IsRegular) {path : List Step} {m : Node}
    (hway : n.LeadsTo path m) : m.IsRegular :=
  fun k hk => h k (mem_preorder_trans (mem_preorder.mpr ⟨path, hway⟩) hk)

theorem IsRegular.attains (h : n.IsRegular) (hnormal : n.IsNormal) :
    n.reach.Attains n.language :=
  hnormal.attains fun m hm => (h m hm).classInhabited

/-- A repeating node is a quantifier over a body with which it starts. -/
theorem exists_body (hq : q.IsNormal) (hrepeating : q.isRepeating = true) :
    ∃ bounds mode body, q.label = .quantifier bounds mode ∧ q.children = [body] ∧
      bounds.Ordered ∧ bounds.repeats = true ∧ q.first = body.first := by
  obtain ⟨hsuits, hreach⟩ := hq q (mem_preorder_self q)
  cases hlabel : q.label with
  | quantifier bounds mode =>
    have hrepeats : bounds.repeats = true := by
      rwa [isRepeating, hlabel] at hrepeating
    have hmax : bounds.max ≠ some 0 := by
      intro hzero
      simp [Bounds.repeats, hzero] at hrepeats
    rw [hlabel] at hsuits hreach
    generalize hkinds : q.children.map Node.label = kinds at hsuits
    cases hsuits with
    | leaf hleaf =>
      cases hleaf with
      | plain hplain => cases hplain
    | quantifier hbounds =>
      obtain ⟨body, hbody, -⟩ := List.map_eq_singleton_iff.mp hkinds
      rw [hbody] at hreach
      refine ⟨bounds, mode, body, rfl, hbody, hbounds, hrepeats, ?_⟩
      rw [first, hreach]
      exact Reach.first_repeated hmax
  | _ => simp [isRepeating, hlabel, Label.isRepeating] at hrepeating

/-- The reach of a sequence of nodes covers what they match one after the
    other. -/
theorem covers_sequence {nodes : List Node} (h : ∀ n ∈ nodes, n.reach.Covers n.language) :
    (Reach.sequence (nodes.map reach)).Covers (nodes.map language).prod := by
  refine .sequence ?_
  rwa [List.forall₂_map_left_iff, List.forall₂_map_right_iff, List.forall₂_same]

/-- Some of the children of a regular node, one after the other. -/
theorem IsRegular.attains_sequence (h : n.IsRegular) (hnormal : n.IsNormal) {nodes : List Node}
    (hnodes : ∀ m ∈ nodes, m ∈ n.children) :
    (Reach.sequence (nodes.map reach)).Attains (nodes.map language).prod := by
  refine .sequence ?_
  rw [List.forall₂_map_left_iff, List.forall₂_map_right_iff, List.forall₂_same]
  exact fun m hm => (h.of_child (hnodes m hm)).attains (hnormal.of_child (hnodes m hm))

/-- Some derivation from `q` has an occurrence of `i` with the character `c`
    right behind it. -/
def Follows (q i : Node) (c : CodePoint) : Prop :=
  ∃ d e left right, q.Derives d ∧ d.Occurs e left (c :: right) ∧ e.source = i

/-- In derivations of one word from `q`, occurrences of `i` that start at the
    same offset also end at the same offset. -/
def EndsUniquely (q i : Node) : Prop :=
  ∀ (d d' e e' : Derivation) (left left' right right' : Word), q.Derives d → q.Derives d' →
    d.word = d'.word → d.Occurs e left right → d'.Occurs e' left' right' →
    e.source = i → e'.source = i → left.length = left'.length →
    (left ++ e.word).length = (left' ++ e'.word).length

/-- The node `i` stands inside the repeating node `q`: the steps `way` lead
    up from `i` to the step `last` from `q`, and no other repeating node is
    passed. -/
structure Inside (q : Node) (way : List Step) (last : Step) (i : Node) : Prop where
  normal : q.IsNormal
  unique : q.indices.Nodup
  repeating : q.isRepeating = true
  last_parent : last.parent = q
  leads : q.LeadsTo (way ++ [last]) i
  between : ∀ step ∈ way, step.parent.isRepeating = false

namespace Inside

variable {i : Node} {way : List Step} {last step : Step}

/-- Without further steps the node is the body. -/
theorem mem_children (h : q.Inside [] last i) : i ∈ q.children := by
  obtain ⟨-, hchildren⟩ := h.leads.last_step
  rw [← h.last_parent, hchildren]
  simp

theorem children (h : q.Inside (step :: way) last i) :
    step.parent.children = step.before.reverse ++ i :: step.after :=
  h.leads.last_step.2

theorem parent_repeating (h : q.Inside (step :: way) last i) :
    step.parent.isRepeating = false :=
  h.between step List.mem_cons_self

/-- One step up, the parent stands inside the same repeating node. -/
theorem up (h : q.Inside (step :: way) last i) : q.Inside way last step.parent where
  normal := h.normal
  unique := h.unique
  repeating := h.repeating
  last_parent := h.last_parent
  leads := h.leads.last_step.1
  between := (List.forall_mem_cons.mp h.between).2

theorem isNormal (h : q.Inside way last i) : i.IsNormal :=
  h.normal.of_leadsTo h.leads

theorem isRegular (h : q.Inside way last i) (hregular : q.IsRegular) : i.IsRegular :=
  hregular.of_leadsTo h.leads

end Inside

end Node

/-! ## Section 3: What follows is collected -/

section Way

variable {q : Node} {last : Step} {way up : List Step} {d e : Derivation} {left right : Word}
  {c : CodePoint}

/-- A word that starts with a part of a repeating node starts as that node
    does. -/
theorem Derivation.IsValid.contains_first {f : Derivation} (hf : f.IsValid)
    (hnormal : f.source.IsNormal) (hrepeating : f.source.isRepeating = true)
    {part : Derivation} (hpart : part ∈ f.parts) (hc : part.word.head? = some c) :
    f.source.first.contains c = true := by
  obtain ⟨bounds, mode, body, -, hchildren, -, -, hfirst⟩ := Node.exists_body hnormal hrepeating
  obtain ⟨before, after, hparts⟩ := List.append_of_mem hpart
  obtain ⟨passed, ahead, hsplit, -⟩ := hf.exists_step hparts
  -- every part is derived from the body
  have hsource : part.source = body := by
    have hmem : part.source ∈ f.source.children := by
      rw [hsplit]
      simp
    rw [hchildren] at hmem
    exact List.mem_singleton.mp hmem
  have hbody : body.IsNormal := hnormal.of_child (by simp [hchildren])
  rw [hfirst]
  exact hbody.covers.first part.word (hsource ▸ (hf.part_isValid hpart).word_mem) c hc

/-- A word behind items of a sequence starts as the items do, unless they are
    all empty. -/
theorem Derivation.contains_first_of_joined {parts : List Derivation}
    (hnormal : ∀ n ∈ parts.map source, n.IsNormal) (hvalid : ∀ part ∈ parts, part.IsValid)
    (hc : (joined parts ++ right).head? = some c) :
    (Reach.sequence ((parts.map source).map Node.reach)).first.contains c = true ∨
      (Reach.sequence ((parts.map source).map Node.reach)).minWidth = 0 ∧
        right.head? = some c := by
  have hcovers := Node.covers_sequence fun n hn => (hnormal n hn).covers
  have hword : joined parts ∈ ((parts.map source).map Node.language).prod := by
    rw [List.map_map]
    exact joined_mem_prod fun part hpart => (hvalid part hpart).word_mem
  cases hjoined : joined parts with
  | nil =>
    rw [hjoined] at hc hword
    exact .inr ⟨Nat.le_zero.mp (hcovers.min_le [] hword), hc⟩
  | cons first rest =>
    rw [hjoined] at hc hword
    exact .inl (hcovers.first (first :: rest) hword c hc)

/-- What stands behind a part starts with a character that is collected from
    its parent on, if what stands behind the parent does. -/
theorem contains_followInBody_of_part {f : Derivation} (hf : f.IsValid)
    (hnormal : f.source.IsNormal) {step : Step} (hstep : step.parent.isRepeating = false)
    (hsource : f.source = step.parent) {before after : List Derivation}
    (hparts : f.parts = before ++ e :: after)
    (hafter : step.parent.label = .concat → step.after = after.map Derivation.source)
    (hchildren : ∀ n ∈ step.after, n ∈ step.parent.children)
    (habove : right.head? = some c → (followInBody up).contains c = true)
    (hc : (Derivation.joined after ++ right).head? = some c) :
    (followInBody (step :: up)).contains c = true := by
  -- only in a concatenation something of the parent stands behind the part
  by_cases hconcat : step.parent.label = .concat
  · have hitems : ∀ n ∈ after.map Derivation.source, n.IsNormal := by
      intro n hn
      apply hnormal.of_child
      rw [hsource]
      exact hchildren n (hafter hconcat ▸ hn)
    have hvalid : ∀ part ∈ after, part.IsValid := fun part hpart =>
      hf.part_isValid (by simp [hparts, hpart])
    rw [contains_followInBody_of_concat hstep (congrArg Label.kind hconcat), hafter hconcat]
    exact (Derivation.contains_first_of_joined hitems hvalid hc).imp_right
      fun ⟨hzero, hright⟩ => ⟨hzero, habove hright⟩
  · rw [followInBody_of_not_concat hstep (Node.kind_ne_concat hconcat)]
    obtain ⟨harranges, -⟩ := hf.arranges (e := e) (by simp [hparts])
    rw [hparts, hsource] at harranges
    rw [harranges.eq_nil hconcat hstep] at hc
    exact habove hc

/-- Whatever stands behind an occurrence inside a repeating node starts with
    a character that is collected on the way up.  The induction is on the
    steps of the way, the last of which is the first to be walked up. -/
theorem contains_followInBody_of_occurs (h : q.Inside way last e.source) (hd : q.Derives d)
    (hoccurs : d.Occurs e left right) (hc : right.head? = some c) :
    (followInBody (way ++ last :: up)).contains c = true := by
  obtain ⟨rfl, hvalid⟩ := hd
  induction way generalizing e left right with
  | nil =>
    obtain ⟨f, before, after, left', right', hf, hsource, hparts, rfl, -⟩ :=
      hoccurs.exists_parent hvalid h.unique h.leads
    -- the parent is the whole derivation, so nothing but iterations follows
    obtain ⟨rfl, rfl⟩ := hf.eq_self hvalid h.unique (hsource.trans h.last_parent)
    rw [List.append_nil] at hc
    obtain ⟨part, hpart, hhead⟩ := Derivation.head?_joined hc
    have hmem : part ∈ f.parts := by
      rw [hparts]
      simp [hpart]
    rw [List.nil_append, followInBody_of_repeating (h.last_parent ▸ h.repeating), h.last_parent]
    exact hvalid.contains_first h.normal h.repeating hmem hhead
  | cons step way ih =>
    obtain ⟨f, before, after, left', right', hf, hsource, hparts, rfl, hafter⟩ :=
      hoccurs.exists_parent hvalid h.unique h.leads
    have hup := h.up
    have hchildren : ∀ n ∈ step.after, n ∈ step.parent.children := fun n hn => by
      simp [h.children, hn]
    rw [← hsource] at hup
    exact contains_followInBody_of_part (hf.isValid hvalid) hup.isNormal h.parent_repeating hsource
      hparts hafter hchildren (fun hright => ih hf hright hup) hc

/-! ## Section 4: What is collected follows -/

/-- A derivation of an item is part of one of the sequence, with any word of
    the later items behind it. -/
theorem exists_around_of_concat {m : Node} (hm : m.IsNormal) (hregular : m.IsRegular)
    (hconcat : m.label = .concat) {passed ahead : List Node} (he : e.IsValid)
    (hchildren : m.children = passed.reverse ++ e.source :: ahead) {w : Word}
    (hw : w ∈ (ahead.map Node.language).prod) :
    ∃ f before after, m.Derives f ∧ f.parts = before ++ e :: after ∧
      Derivation.joined after = w := by
  have hitems : ∀ n ∈ passed.reverse, n ∈ m.children := fun n hn => by
    rw [hchildren]
    exact List.mem_append_left _ hn
  -- something matches the items in front
  obtain ⟨v, hv⟩ := (hregular.attains_sequence hm hitems).exists_mem
  obtain ⟨before, hbefore, hpassed, -⟩ :=
    Node.exists_parts (fun n hn => (hm.of_child (hitems n hn)).isDerivable) hv
  have hlater : ∀ n ∈ ahead, n.IsDerivable := fun n hn =>
    (hm.of_child (by simp [hchildren, hn])).isDerivable
  obtain ⟨after, hafter, rfl, rfl⟩ := Node.exists_parts hlater hw
  have harranges : Derivation.Arranges m.label m.children (before ++ e :: after) := by
    rw [hconcat, hchildren, ← hpassed]
    simpa using @Derivation.Arranges.concat (before ++ e :: after)
  have hparts : ∀ part ∈ before ++ e :: after, part.IsValid :=
    List.forall_mem_append.mpr ⟨hbefore, List.forall_mem_cons.mpr ⟨he, hafter⟩⟩
  exact ⟨_, before, after, ⟨rfl, .inner harranges hparts⟩, rfl, rfl⟩

/-- Below anything else that does not repeat it, a derivation is all that its
    parent needs. -/
theorem exists_around_of_not_concat {m : Node} (hm : m.IsNormal) (hregular : m.IsRegular)
    (hconcat : m.label ≠ .concat) (hrepeating : m.isRepeating = false)
    (hvoid : m.label.isVoid = false) (he : e.IsValid) (hchild : e.source ∈ m.children) :
    ∃ f, m.Derives f ∧ f.parts = [e] := by
  have hparts : ∀ part ∈ [e], part.IsValid := fun part hpart =>
    List.mem_singleton.mp hpart ▸ he
  suffices harranges : Derivation.Arranges m.label m.children [e] from
    ⟨_, ⟨rfl, .inner harranges hparts⟩, rfl⟩
  obtain ⟨hsuits, -⟩ := hm m m.mem_preorder_self
  have hlabel := hregular m m.mem_preorder_self
  unfold Node.isRepeating at hrepeating
  generalize m.label = label, m.children = children at *
  generalize hkinds : children.map Node.label = kinds at hsuits
  cases hsuits with
  | leaf =>
    obtain rfl := List.map_eq_nil_iff.mp hkinds
    exact absurd hchild List.not_mem_nil
  | group =>
    obtain ⟨body, rfl, -⟩ := List.map_eq_singleton_iff.mp hkinds
    obtain rfl := List.mem_singleton.mp hchild
    exact .group
  | lookaround => exact absurd hlabel id
  | @quantifier bounds mode _ hbounds =>
    obtain ⟨body, rfl, -⟩ := List.map_eq_singleton_iff.mp hkinds
    -- a quantifier that does not repeat takes its body once
    have hone := Label.max_eq_one hrepeating hvoid
    refine .quantifier (hbounds 1 hone) (fun high hhigh => ?_) fun part hpart => ?_
    · exact Nat.le_of_eq (Option.some.inj (hone.symm.trans hhigh))
    · rw [List.mem_singleton.mp hpart]
      exact List.mem_singleton.mp hchild
  | concat => exact absurd rfl hconcat
  | alternation => exact .alternation hchild
  | conditional => exact absurd hlabel id

/-- Below anything but a repetition, a derivation is part of one of the
    parent. -/
theorem exists_around {m : Node} (hm : m.IsNormal) (hregular : m.IsRegular)
    (hrepeating : m.isRepeating = false) (hvoid : m.label.isVoid = false)
    {passed ahead : List Node} (he : e.IsValid)
    (hchildren : m.children = passed.reverse ++ e.source :: ahead) :
    ∃ f before after, m.Derives f ∧ f.parts = before ++ e :: after := by
  by_cases hconcat : m.label = .concat
  · have hahead : ∀ n ∈ ahead, n ∈ m.children := fun n hn => by simp [hchildren, hn]
    obtain ⟨w, hw⟩ := (hregular.attains_sequence hm hahead).exists_mem
    obtain ⟨f, before, after, hf, hparts, -⟩ :=
      exists_around_of_concat hm hregular hconcat he hchildren hw
    exact ⟨f, before, after, hf, hparts⟩
  · obtain ⟨f, hf, hparts⟩ := exists_around_of_not_concat hm hregular hconcat hrepeating hvoid he
      (by simp [hchildren])
    exact ⟨f, [], [], hf, hparts⟩

/-- Two derivations of the body of a repeating node can stand next to each
    other. -/
theorem exists_repeated (hq : q.IsNormal) (hrepeating : q.isRepeating = true) {g : Derivation}
    (he : e.IsValid) (hg : g.IsValid) (hchild : e.source ∈ q.children)
    (hsame : g.source = e.source) :
    ∃ d right, q.Derives d ∧ d.Occurs e [] (g.word ++ right) := by
  obtain ⟨bounds, mode, body, hlabel, hchildren, hbounds, hrepeats, -⟩ :=
    Node.exists_body hq hrepeating
  obtain rfl : e.source = body := by simpa [hchildren] using hchild
  let after := g :: List.replicate (bounds.min - 2) g
  have hafter : ∀ part ∈ after, part = g := by
    intro part hpart
    rcases List.mem_cons.mp hpart with rfl | hpart
    · rfl
    · exact List.eq_of_mem_replicate hpart
  have hlength : (e :: after).length = bounds.min - 2 + 2 := by simp [after]
  have harranges : Derivation.Arranges q.label q.children (e :: after) := by
    rw [hlabel, hchildren]
    refine .quantifier ?_ (fun high hhigh => ?_) fun part hpart => ?_
    · omega
    · -- two repetitions are allowed, and as many as are asked for
      have htwo : 1 < high := by simpa [Bounds.repeats, hhigh] using hrepeats
      have hmin := hbounds high hhigh
      omega
    · rcases List.mem_cons.mp hpart with rfl | hpart
      · rfl
      · rw [hafter part hpart, hsame]
  have hparts : ∀ part ∈ e :: after, part.IsValid :=
    List.forall_mem_cons.mpr ⟨he, fun part hpart => hafter part hpart ▸ hg⟩
  let d := Derivation.node q (Derivation.joined (e :: after)) (e :: after)
  have hd : q.Derives d := ⟨rfl, .inner harranges hparts⟩
  have hoccurs : d.Occurs e ([] ++ Derivation.joined []) (Derivation.joined after ++ []) :=
    .part .here rfl
  exact ⟨d, Derivation.joined (List.replicate (bounds.min - 2) g), hd, by
    simpa [after] using hoccurs⟩

/-- The next iteration can start with whatever the repeating node starts
    with. -/
theorem exists_next_iteration (hq : q.IsNormal) (hrepeating : q.isRepeating = true)
    (hregular : q.IsRegular) (he : e.IsValid) (hchild : e.source ∈ q.children)
    (hc : q.first.contains c = true) :
    ∃ d right, q.Derives d ∧ d.Occurs e [] (c :: right) := by
  obtain ⟨bounds, mode, body, -, hbody, -, -, hfirst⟩ := Node.exists_body hq hrepeating
  obtain rfl : e.source = body := by simpa [hbody] using hchild
  rw [hfirst] at hc
  have hattains := (hregular.of_child hchild).attains (hq.of_child hchild)
  obtain ⟨w, hw, hhead⟩ := hattains.first c hc
  obtain ⟨g, ⟨hsource, hg⟩, rfl⟩ := (hq.of_child hchild).isDerivable w hw
  obtain ⟨d, right, hd, hoccurs⟩ := exists_repeated hq hrepeating he hg hchild hsource
  obtain ⟨rest, hword⟩ := List.head?_eq_some_iff.mp hhead
  rw [hword] at hoccurs
  exact ⟨d, _, hd, hoccurs⟩

/-- Inside a repeating node every derivation occurs in one of the whole. -/
theorem exists_occurs (h : q.Inside way last e.source) (hregular : q.IsRegular)
    (hopen : ∀ step ∈ way, step.parent.label.isVoid = false) (he : e.IsValid) :
    ∃ d left right, q.Derives d ∧ d.Occurs e left right := by
  induction way generalizing e with
  | nil =>
    -- the body repeats the derivation as often as it has to
    obtain ⟨d, right, hd, hoccurs⟩ :=
      exists_repeated h.normal h.repeating he he h.mem_children rfl
    exact ⟨d, [], _, hd, hoccurs⟩
  | cons step way ih =>
    obtain ⟨hvoid, hrest⟩ := List.forall_mem_cons.mp hopen
    obtain ⟨f, before, after, ⟨hsource, hf⟩, hparts⟩ := exists_around
      h.up.isNormal (h.up.isRegular hregular) h.parent_repeating hvoid he h.children
    obtain ⟨d, left, right, hd, hoccurs⟩ := ih (hsource ▸ h.up) hrest hf
    exact ⟨d, _, _, hd, hoccurs.part hparts⟩

/-- One step up, a character that is collected either stands behind the
    derivation in one of the parent, or it is collected from the parent on
    and nothing stands behind the derivation. -/
theorem exists_around_of_contains {step : Step} (hm : step.parent.IsNormal)
    (hregular : step.parent.IsRegular) (hstep : step.parent.isRepeating = false)
    (hvoid : step.parent.label.isVoid = false) (he : e.IsValid)
    (hchildren : step.parent.children = step.before.reverse ++ e.source :: step.after)
    (hc : (followInBody (step :: up)).contains c = true) :
    ∃ f before after, step.parent.Derives f ∧ f.parts = before ++ e :: after ∧
      ((Derivation.joined after).head? = some c ∨
        Derivation.joined after = [] ∧ (followInBody up).contains c = true) := by
  by_cases hconcat : step.parent.label = .concat
  · have hlater : ∀ n ∈ step.after, n ∈ step.parent.children := fun n hn => by
      simp [hchildren, hn]
    have hattains := hregular.attains_sequence hm hlater
    rw [contains_followInBody_of_concat hstep (congrArg Label.kind hconcat)] at hc
    rcases hc with hfirst | ⟨hzero, habove⟩
    · -- the later items match a word that starts with the character
      obtain ⟨w, hw, hhead⟩ := hattains.first c hfirst
      obtain ⟨f, before, after, hf, hparts, rfl⟩ :=
        exists_around_of_concat hm hregular hconcat he hchildren hw
      exact ⟨f, before, after, hf, hparts, .inl hhead⟩
    · -- the later items match the empty word
      obtain ⟨w, hw, hlength⟩ := hattains.min
      obtain rfl := List.eq_nil_of_length_eq_zero (hlength.trans hzero)
      obtain ⟨f, before, after, hf, hparts, hempty⟩ :=
        exists_around_of_concat hm hregular hconcat he hchildren hw
      exact ⟨f, before, after, hf, hparts, .inr ⟨hempty, habove⟩⟩
  · rw [followInBody_of_not_concat hstep (Node.kind_ne_concat hconcat)] at hc
    obtain ⟨f, hf, hparts⟩ := exists_around_of_not_concat hm hregular hconcat hstep hvoid he
      (by simp [hchildren])
    exact ⟨f, [], [], hf, hparts, .inr ⟨rfl, hc⟩⟩

/-- Every character that is collected on the way up stands right behind some
    occurrence, whatever derivation is taken for it.  The induction is on
    the steps of the way: a step up puts the derivation into one of its
    parent, with the later items behind it if they supply the character. -/
theorem exists_occurs_of_contains (h : q.Inside way last e.source) (hregular : q.IsRegular)
    (hopen : ∀ step ∈ way, step.parent.label.isVoid = false) (he : e.IsValid)
    (hc : (followInBody (way ++ last :: up)).contains c = true) :
    ∃ d left right, q.Derives d ∧ d.Occurs e left (c :: right) := by
  induction way generalizing e with
  | nil =>
    rw [List.nil_append, followInBody_of_repeating (h.last_parent ▸ h.repeating),
      h.last_parent] at hc
    obtain ⟨d, right, hd, hoccurs⟩ :=
      exists_next_iteration h.normal h.repeating hregular he h.mem_children hc
    exact ⟨d, [], right, hd, hoccurs⟩
  | cons step way ih =>
    obtain ⟨hvoid, hrest⟩ := List.forall_mem_cons.mp hopen
    obtain ⟨f, before, after, ⟨hsource, hf⟩, hparts, hbehind⟩ := exists_around_of_contains
      h.up.isNormal (h.up.isRegular hregular) h.parent_repeating hvoid he h.children hc
    have hup := h.up
    rw [← hsource] at hup
    rcases hbehind with hhead | ⟨hempty, habove⟩
    · -- the character is there already, so any whole around the parent will do
      obtain ⟨d, left, right, hd, hoccurs⟩ := exists_occurs hup hregular hrest hf
      obtain ⟨rest, hword⟩ := List.head?_eq_some_iff.mp hhead
      have hpart := hoccurs.part hparts
      rw [hword] at hpart
      exact ⟨d, _, _, hd, hpart⟩
    · obtain ⟨d, left, right, hd, hoccurs⟩ := ih hup hrest hf habove
      have hpart := hoccurs.part hparts
      rw [hempty] at hpart
      exact ⟨d, _, _, hd, hpart⟩

end Way

/-! ## Section 5: Where an occurrence ends -/

/-- If nothing that a node consumes is collected on the way up from it, no
    occurrence of it ends inside another one that starts at the same
    offset: the character at which the shorter one ends would be consumed
    by the longer one. -/
theorem not_lt_of_disjoint {q i : Node} {follow : CharSet} (hi : i.IsNormal)
    (hfollow : ∀ c, q.Follows i c → follow.contains c = true)
    (hdisjoint : ∀ c, ¬ (i.chars.contains c = true ∧ follow.contains c = true))
    {d d' e e' : Derivation} {left left' right right' : Word} (hd : q.Derives d)
    (hd' : q.Derives d') (hword : d.word = d'.word) (hoccurs : d.Occurs e left right)
    (hoccurs' : d'.Occurs e' left' right') (hsource : e.source = i) (hsource' : e'.source = i)
    (hstart : left.length = left'.length) : ¬ e.word.length < e'.word.length := by
  intro hlt
  -- the words agree from the common start on
  rw [hoccurs.word_eq hd.2, hoccurs'.word_eq hd'.2, List.append_assoc, List.append_assoc] at hword
  obtain ⟨-, hrest⟩ := List.append_inj hword hstart
  rcases List.append_eq_append_iff.mp hrest with ⟨more, hmore, hright⟩ | ⟨more, hmore, -⟩
  · cases more with
    | nil =>
      rw [hmore, List.append_nil] at hlt
      exact Nat.lt_irrefl _ hlt
    | cons c more =>
      -- the longer occurrence consumes what stands behind the shorter one
      have hchars : i.chars.contains c = true := by
        have hmem : e'.word ∈ i.language := hsource' ▸ (hoccurs'.isValid hd'.2).word_mem
        exact hi.covers.chars e'.word hmem c (by simp [hmore])
      rw [hright] at hoccurs
      have hfollows : q.Follows i c := ⟨d, e, left, more ++ right', hd, hoccurs, hsource⟩
      exact hdisjoint c ⟨hchars, hfollow c hfollows⟩
  · rw [hmore, List.length_append] at hlt
    omega

/-! ## Section 6: Patterns -/

/-- The way up to the nearest repeating quantifier, and the nodes that it
    passes. -/
theorem Visit.exists_way_of_enclosing {i q : Visit} (h : i.enclosing? = some q) :
    q.node.isRepeating = true ∧ ∃ way last, i.path = way ++ last :: q.path ∧
      last.parent = q.node ∧ ∀ step ∈ way, step.parent.isRepeating = false ∧
        ∃ b ∈ i.between, b.node = step.parent := by
  have hfound := List.find?_some h
  refine ⟨hfound, ?_⟩
  obtain ⟨n, path⟩ := i
  -- up the path, to the first parent that repeats
  induction path generalizing n with
  | nil => simp [enclosing?, above, above.go] at h
  | cons step path ih =>
    rw [enclosing?, above_cons, List.find?_cons] at h
    cases hrepeating : step.parent.isRepeating with
    | true =>
      obtain rfl : ⟨step.parent, path⟩ = q := by simpa [hrepeating] using h
      exact ⟨[], step, rfl, rfl, by simp⟩
    | false =>
      have habove : enclosing? ⟨step.parent, path⟩ = some q := by
        simpa [enclosing?, hrepeating] using h
      have hbetween : between ⟨n, step :: path⟩ =
          ⟨step.parent, path⟩ :: between ⟨step.parent, path⟩ := by
        simp [between, above_cons, hrepeating]
      obtain ⟨way, last, rfl, hlast, hway⟩ := ih step.parent habove
      refine ⟨step :: way, last, rfl, hlast, List.forall_mem_cons.mpr ⟨⟨hrepeating, ?_⟩, ?_⟩⟩
      · exact ⟨_, hbetween ▸ List.mem_cons_self, rfl⟩
      · intro other hother
        obtain ⟨hnot, b, hb, hparent⟩ := hway other hother
        exact ⟨hnot, b, hbetween ▸ List.mem_cons_of_mem _ hb, hparent⟩

/-- The nearest repeating quantifier above a place of a tree is a place of
    it. -/
theorem Visit.mem_visits_of_enclosing {root : Node} {i q : Visit} (hi : i ∈ root.visits)
    (hq : i.enclosing? = some q) : q ∈ root.visits := by
  obtain ⟨-, way, last, hpath, hlast, -⟩ := exists_way_of_enclosing hq
  have hleads := Node.mem_visits.mp hi
  rw [hpath] at hleads
  exact Node.mem_visits.mpr (hlast ▸ hleads.through.1)

/-- The quantifier of a site is a place of the tree that repeats. -/
theorem quantifier_mem_visits {root : Node} {site : RiskSite}
    (h : site ∈ (scanRepetition root).sites) :
    site.quantifier ∈ root.visits ∧ site.quantifier.node.isRepeating = true := by
  obtain ⟨hcause, henclosing⟩ := enclosing_of_mem_sites h
  exact ⟨Visit.mem_visits_of_enclosing hcause henclosing,
    (Visit.exists_way_of_enclosing henclosing).1⟩

/-- In a parsed pattern every node stands inside the nearest repeating
    quantifier above it. -/
theorem Pattern.exists_inside {text : Text} {p : Pattern} (h : Pattern.parse text = .ok p)
    {i q : Visit} (hi : i ∈ p.root.visits) (hq : i.enclosing? = some q) :
    ∃ way last, i.path = way ++ last :: q.path ∧ q.node.Inside way last i.node ∧
      ∀ step ∈ way, ∃ b ∈ i.between, b.node = step.parent := by
  obtain ⟨hrepeating, way, last, hpath, hlast, hway⟩ := Visit.exists_way_of_enclosing hq
  have hleads := Node.mem_visits.mp hi
  rw [hpath] at hleads
  obtain ⟨habove, hbelow⟩ := hleads.through
  rw [hlast] at habove hbelow
  obtain ⟨count, hnumbered⟩ := numbered_of_parse h
  have hall : p.root.indices.Nodup := hnumbered.perm_range.nodup_iff.mpr List.nodup_range
  have hsublist := Node.preorder_sublist (Node.mem_preorder.mpr ⟨_, habove⟩)
  refine ⟨way, last, hpath, ?_, fun step hstep => (hway step hstep).2⟩
  exact {
    normal := (isNormal_of_parse h).of_leadsTo habove
    unique := hall.sublist (hsublist.map _)
    repeating := hrepeating
    last_parent := hlast
    leads := hbelow
    between := fun step hstep => (hway step hstep).1 }

/-- Let the tree of a repeating quantifier `q` be regular, and let a node
    `i` stand below it with no other repeating quantifier between and none
    that never matches its body.  The characters collected on the way up
    from `i` are those that stand right behind `i` in some derivation from
    `q`.  If `i` consumes none of them, then in derivations of one word
    from `q` the start of an occurrence of `i` determines its end.  No
    number is given twice in a pattern, so a node stands for its place. -/
theorem Pattern.follow_exact {text : Text} {p : Pattern} (h : Pattern.parse text = .ok p)
    {i q : Visit} (hi : i ∈ p.root.visits) (hq : i.enclosing? = some q)
    (hregular : q.node.IsRegular) (hbetween : ∀ b ∈ i.between, b.node.label.isVoid = false) :
    (∀ c, (followInBody i.path).contains c = true ↔ q.node.Follows i.node c) ∧
      (i.node.chars.intersects (followInBody i.path) = false → q.node.EndsUniquely i.node) := by
  obtain ⟨way, last, hpath, hinside, hway⟩ := exists_inside h hi hq
  have hcanonical := isCanonical_followInBody (isNormal_of_parse h) (Node.mem_visits.mp hi)
  rw [hpath] at hcanonical ⊢
  have hopen : ∀ step ∈ way, step.parent.label.isVoid = false := by
    intro step hstep
    obtain ⟨b, hb, hparent⟩ := hway step hstep
    exact hparent ▸ hbetween b hb
  have hfollow : ∀ c, q.node.Follows i.node c →
      (followInBody (way ++ last :: q.path)).contains c = true := by
    rintro c ⟨d, e, left, right, hd, hoccurs, hsource⟩
    exact contains_followInBody_of_occurs (hsource ▸ hinside) hd hoccurs rfl
  constructor
  · refine fun c => ⟨fun hc => ?_, hfollow c⟩
    -- the node matches something, and any derivation of it will do
    obtain ⟨w, hw⟩ := ((hinside.isRegular hregular).attains hinside.isNormal).exists_mem
    obtain ⟨e, ⟨hsource, he⟩, -⟩ := hinside.isNormal.isDerivable w hw
    obtain ⟨d, left, right, hd, hoccurs⟩ :=
      exists_occurs_of_contains (hsource ▸ hinside) hregular hopen he hc
    exact ⟨d, e, left, right, hd, hoccurs, hsource⟩
  · intro hmeets
    -- both sets are canonical, so the overlap test misses no common member
    have hdisjoint : ∀ c, ¬ (i.node.chars.contains c = true ∧
        (followInBody (way ++ last :: q.path)).contains c = true) := by
      have hchars := hinside.isNormal.isCanonical_reach.chars
      have hnone := mt (CharSet.intersects_iff hchars hcanonical).mpr (Bool.eq_false_iff.mp hmeets)
      exact fun c hc => hnone ⟨c, hc⟩
    intro d d' e e' left left' right right' hd hd' hword hoccurs hoccurs' hsource hsource' hstart
    have hnot := not_lt_of_disjoint hinside.isNormal hfollow hdisjoint hd hd' hword hoccurs hoccurs'
      hsource hsource' hstart
    have hnot' := not_lt_of_disjoint hinside.isNormal hfollow hdisjoint hd' hd hword.symm hoccurs'
      hoccurs hsource' hsource hstart.symm
    simp only [List.length_append]
    omega

/-- Behind the letters `a` of one iteration stands a `b`, so that they end
    where the letters end. -/
theorem Pattern.follow_exact_of_disjoint :
    ∃ p, Pattern.parse "(?:a+b)+".toList = .ok p ∧ ∃ i ∈ p.root.visits, ∃ q,
      i.enclosing? = some q ∧ i.node.isRepeating = true ∧
        (∀ c, q.node.Follows i.node c ↔ c = 'b'.toNat) ∧ q.node.EndsUniquely i.node := by
  -- all that the theorem asks for is computed at once
  have hcheck : (Pattern.parse "(?:a+b)+".toList).toOption.any (fun p =>
      p.root.visits.any fun i => i.enclosing?.any fun q =>
        i.node.isRepeating && followInBody i.path == .single 'b'.toNat &&
          !i.node.chars.intersects (followInBody i.path) &&
          i.between.all (fun b => !b.node.label.isVoid) &&
          q.node.preorder.all fun m => match m.label with
            | .literal _ _ | .concat => true
            | .group kind => !kind.isAtomic
            | .quantifier _ mode => mode != .possessive
            | _ => false) = true := by decide +kernel
  obtain ⟨p, hp, hcheck⟩ := Pattern.exists_of_check hcheck
  obtain ⟨i, hi, hcheck⟩ := List.any_eq_true.mp hcheck
  obtain ⟨q, hq, hcheck⟩ := (Option.any_eq_true _ _).mp hcheck
  simp only [Bool.and_eq_true, beq_iff_eq, Bool.not_eq_true', List.all_eq_true] at hcheck
  obtain ⟨⟨⟨⟨hrepeating, hfollow⟩, hmeets⟩, hbetween⟩, hlabels⟩ := hcheck
  have hregular : q.node.IsRegular := by
    intro m hm
    have hlabel := hlabels m hm
    cases hm : m.label with
    | literal | concat => trivial
    | group kind => simpa [hm, Label.IsRegular] using hlabel
    | quantifier bounds mode => simpa [hm, Label.IsRegular] using hlabel
    | _ => simp [hm] at hlabel
  obtain ⟨hexact, hends⟩ := Pattern.follow_exact hp hi hq hregular hbetween
  refine ⟨p, hp, i, hi, q, hq, hrepeating, fun c => ?_, hends hmeets⟩
  rw [← hexact c, hfollow, CharSet.contains_single]

end RegexInsight
