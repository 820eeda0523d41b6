import Mathlib
import RegexInsight.Backtracking.Assessment
import RegexInsight.Proofs.Explanation.QuantifierText
import RegexInsight.Proofs.Pattern.Excerpt
import RegexInsight.Proofs.Pattern.Within
import RegexInsight.Proofs.Repetition.Nesting

/-! # Applying a suggested rewrite

    The rewrite of a nested quantifier puts an atomic group around the inner
    quantifier, in place of the plain group around it if there is one.  Put
    into the pattern, it is accepted exactly when no reference depends on a
    group that is dropped, as long as the inner quantifier does not repeat
    the end of a quote and no verbose flag is dropped. -/

namespace RegexInsight

/-! ## Section 1: The rewritten pattern -/

namespace Pattern

/-- The pattern with the quantifier of a nested site replaced by its
    rewrite. -/
def rewritten (p : Pattern) (site : RiskSite) : Text :=
  p.text.take site.quantifier.node.start ++ rewriteNested p.text site ++
    p.text.drop site.quantifier.node.stop

/-- The references that are remembered when the pattern is read. -/
def references (p : Pattern) : List Reference :=
  match ParserState.run p.text.length (.initial p.text) with
  | .ok last => last.references
  | .error _ => []

theorem references_of_runsTo {p : Pattern} {last : ParserState}
    (h : (ParserState.initial p.text).RunsTo last) (hend : last.cur.rest = []) :
    p.references = last.references := by
  have hrun : ParserState.run p.text.length (.initial p.text) = .ok last :=
    ParserState.run_of_runsTo h hend (Nat.le_refl _)
  rw [references, hrun]

/-- If the target stands within the quantifier, only the target is
    replaced. -/
theorem rewritten_eq_excerptText {p : Pattern} {site : RiskSite}
    (hstart : site.quantifier.node.start ≤ (atomicTarget site.cause).start)
    (hstop : (atomicTarget site.cause).stop ≤ site.quantifier.node.stop) :
    p.rewritten site = ParserState.excerptText p.text (atomicTarget site.cause).start
      site.cause.node.start site.cause.node.stop (atomicTarget site.cause).stop := by
  have hfront : p.text.take site.quantifier.node.start ++
      slice p.text site.quantifier.node.start (atomicTarget site.cause).start =
        p.text.take (atomicTarget site.cause).start := by
    rw [slice, ← List.take_add, Nat.add_sub_cancel' hstart]
  have hback : slice p.text (atomicTarget site.cause).stop site.quantifier.node.stop ++
      p.text.drop site.quantifier.node.stop = p.text.drop (atomicTarget site.cause).stop := by
    have hsplit := List.take_append_drop
      (site.quantifier.node.stop - (atomicTarget site.cause).stop)
      (p.text.drop (atomicTarget site.cause).stop)
    rwa [List.drop_drop, Nat.add_sub_cancel' hstop] at hsplit
  simp only [rewritten, rewriteNested, ParserState.excerptText, ← hfront, ← hback,
    List.append_assoc]

end Pattern

/-! ## Section 2: Excerpts around an item -/

/-- A group whose body is a quantifier has one branch with nothing else in
    it. -/
theorem Frame.items_of_close {f : Frame} {count stop count' : Nat} {node item : Node}
    {kind : GroupKind} (h : f.close count stop = .ok (node, count'))
    (hopener : f.opener = .group kind)
    (hitem : item ∈ node.children) (hquantifier : item.label.isQuantifier = true) :
    f.finished = [] ∧ f.items = [item] := by
  obtain ⟨node', count'', hclose, -, hchildren⟩ := f.exists_close_of_group hopener count stop
  rw [hclose] at h
  obtain rfl : node' = node := congrArg Prod.fst (Except.ok.inj h)
  rw [hchildren] at hitem
  obtain rfl := List.mem_singleton.mp hitem
  have hlength := @length_closeBranches count stop f.branches
  generalize hbodies : (closeBranches count stop f.branches).1 = bodies at hquantifier hlength ⊢
  rcases bodies with - | ⟨only, - | ⟨second, more⟩⟩
  · exact Bool.noConfusion hquantifier
  · -- only one branch is left, and it has only one item
    have hone : f.finished = [] := by
      simp only [branches, List.length_reverse, List.length_cons, List.length_nil] at hlength
      exact List.eq_nil_of_length_eq_zero (by omega)
    refine ⟨hone, ?_⟩
    have honly : (closeBranch count stop f.items.reverse).1 = only := by
      rw [branches, hone] at hbodies
      exact (List.cons.inj hbodies).1
    apply List.reverse_injective
    show f.items.reverse = [only]
    rcases hitems : f.items.reverse with - | ⟨single, - | ⟨second, more⟩⟩ <;> rw [hitems] at honly
    · rw [← honly] at hquantifier
      exact Bool.noConfusion hquantifier
    · rw [← honly]
      rfl
    · rw [← honly] at hquantifier
      exact Bool.noConfusion hquantifier
  · exact Bool.noConfusion hquantifier

/-- Without `x` among the flags, the verbose mode is the same inside. -/
theorem Opener.verbose_inside {opener : Opener} {modes : Modes}
    (h : ∀ flags, opener = .group (.nonCapturing (some flags)) → 'x' ∉ flags) :
    (opener.inside modes).verbose = modes.verbose := by
  unfold inside
  split
  next flags =>
    have hx := h flags rfl
    have hon : 'x' ∉ flags.takeWhile (· != '-') :=
      fun hmem => hx ((List.takeWhile_sublist _).subset hmem)
    have hoff : 'x' ∉ flags.drop ((flags.takeWhile (· != '-')).length + 1) :=
      fun hmem => hx (List.mem_of_mem_drop hmem)
    simp [Modes.apply, Modes.switched, hon, hoff]
  next => rfl

namespace ParserState

variable {text : Text} {a b c s t u v last : ParserState} {item : Node}

theorem Move.counts_of_opens {kind : GroupKind} (h : Move s t)
    (hlonger : s.outer.length < t.outer.length) (hopener : t.frame.opener = .group kind)
    (hunnamed : ∀ index name spelling, kind ≠ .named index name spelling) :
    t.groups = s.groups + kind.index?.isSome.toNat ∧ t.names = s.names ∧
      t.references = s.references := by
  cases h with
  | skip => exact absurd hlonger (Nat.lt_irrefl _)
  | @plain leaves =>
    rw [moveTo, outer_foldl_addLeaf] at hlonger
    exact absurd hlonger (Nat.lt_irrefl _)
  | flags => exact absurd hlonger (Nat.lt_irrefl _)
  | backreference => exact absurd hlonger (Nat.lt_irrefl _)
  | recursion => exact absurd hlonger (Nat.lt_irrefl _)
  | whole => exact absurd hlonger (Nat.lt_irrefl _)
  | enter hcur hplain =>
    obtain rfl := hopener
    cases hplain with
    | nonCapturing => exact ⟨rfl, rfl, rfl⟩
    | atomic => exact ⟨rfl, rfl, rfl⟩
  | enterCapturing =>
    obtain rfl := Opener.group.inj hopener
    exact ⟨rfl, rfl, rfl⟩
  | enterNamed => exact absurd (Opener.group.inj hopener).symm (hunnamed _ _ _)
  | enterConditional => exact Opener.noConfusion hopener
  | nextBranch => exact absurd hlonger (Nat.lt_irrefl _)
  | close hcur houter =>
    rw [houter] at hlonger
    exact absurd hlonger (by simp)
  | quantify => exact absurd hlonger (Nat.lt_irrefl _)

theorem rest_ne_nil_of_lt (h : (initial text).RunsTo s) (hlt : s.cur.pos < text.length) :
    s.cur.rest ≠ [] := by
  rw [(RemembersTargets.of_runsTo h).place]
  intro hnil
  have hle := List.drop_eq_nil_iff.mp hnil
  omega

/-- An item can be put into an atomic group. -/
theorem Birth.excerpt (hb : (initial text).RunsTo b) (h : Birth b s item a v)
    (hmore : v.cur.rest ≠ []) : Excerpt text false a a v v := by
  have hframe : v.frame = s.frame := (congrArg ParserState.frame h.passed).symm
  have houter : v.outer = a.outer := (congrArg ParserState.outer h.passed).symm.trans h.outer
  rw [h.frame] at hframe
  exact {
    reached := hb.trans h.before.runsTo
    before := .refl
    verbose := rfl
    groups := rfl
    names := rfl
    references := rfl
    inside := h.inside
    level := houter
    after := .refl
    frame := by
      rw [hframe]
      exact ⟨rfl, rfl, rfl⟩
    outer := houter
    kept := ⟨rfl, rfl, rfl⟩
    more := hmore }

/-- Up to an item that stands alone in its frame, all that happens is passing
    over. -/
theorem Birth.eq_moveTo (hb : (initial text).RunsTo b) (h : Birth b s item a v)
    (houter : s.outer = b.outer) (hitems : s.frame.items = [item])
    (hfinished : s.frame.finished = []) : a = b.moveTo a.cur := by
  have hframe := h.frame
  refine h.before.eq_moveTo hb (h.outer.symm.trans houter) ?_ ?_
  · rw [hframe] at hitems
    exact (List.cons.inj hitems).2
  · rw [hframe] at hfinished
    exact hfinished

/-- Opening a group counts it if it has a number, and refers to nothing. -/
theorem Opening.counts {f g : Frame} {around : List Frame} {kind : GroupKind}
    (h : Opening b s g f around a c) (hopener : g.opener = .group kind)
    (hunnamed : ∀ index name spelling, kind ≠ .named index name spelling) :
    c.groups = a.groups + kind.index?.isSome.toNat ∧ c.names = a.names ∧
      c.references = a.references := by
  refine h.opens.move.counts_of_opens ?_ (by rw [h.opened, hopener]; rfl) hunnamed
  rw [h.inner, h.outer, List.length_cons]
  exact Nat.lt_succ_self _

/-- A group around a single item can be replaced by an atomic group around the
    item. -/
theorem Birth.excerpt_of_opening {d o : ParserState} {frame : Frame} {outer : List Frame}
    {node : Node} {count : Nat} {kind : GroupKind}
    (hopening : Opening (initial text) t t.frame frame outer o c) (h : Birth c t item a v)
    (hitems : t.frame.items = [item]) (hfinished : t.frame.finished = [])
    (hopener : t.frame.opener = .group kind)
    (hunnamed : ∀ index name spelling, kind ≠ .named index name spelling)
    (hverbose : ∀ flags, kind = .nonCapturing (some flags) → 'x' ∉ flags)
    (houter : t.outer = frame :: outer)
    (hnext : Next t d)
    (hstate : d = { t with
      cur := d.cur, frame := frame.push node, outer := outer, count := count }) :
    Excerpt text kind.index?.isSome o a v d := by
  have hreached := hopening.before.runsTo
  have hpassed := h.eq_moveTo (hreached.tail hopening.opens) (houter.trans hopening.inner.symm)
    hitems hfinished
  have hcounts := hopening.counts hopener hunnamed
  have hsame : v.groups = t.groups ∧ v.names = t.names ∧ v.references = t.references := by
    rw [h.passed]
    exact ⟨rfl, rfl, rfl⟩
  exact {
    reached := hreached
    before := .head hopening.opens h.before.runsTo
    verbose := by
      rw [hpassed]
      show c.frame.modes.verbose = _
      rw [hopening.opened, hopener, hopening.frame]
      exact Opener.verbose_inside fun flags heq => hverbose flags (Opener.group.inj heq)
    groups := by
      rw [hpassed]
      exact hcounts.1
    names := by
      rw [hpassed]
      exact hcounts.2.1
    references := by
      rw [hpassed]
      exact hcounts.2.2
    inside := h.inside
    level := (congrArg ParserState.outer h.passed).symm.trans h.outer
    after := h.after.runsTo.tail hnext
    frame := by
      rw [hstate, hopening.frame]
      exact ⟨rfl, rfl, rfl⟩
    outer := by
      rw [hstate, hopening.outer]
    kept := by
      rw [hstate]
      exact ⟨hsame.1.symm, hsame.2.1.symm, hsame.2.2.symm⟩
    more := by
      -- there is at least the parenthesis that closes the group
      intro hnil
      obtain ⟨x, rest, hrest, -⟩ := hnext
      obtain ⟨n, -, hcur⟩ := h.after.runsTo.reaches
      rw [hcur, Cursor.advance_rest, hnil, List.drop_nil] at hrest
      nomatch hrest }

theorem not_endsQuoted {stop : Nat} (hchildren : item.children ≠ [])
    (hquote : ∀ operand, item.children = [operand] → ¬ operand.EndsQuote text item.stop) :
    ¬ EndsQuoted text item stop := by
  intro hends
  rcases hends with ⟨hleaf, -⟩ | ⟨-, operand, honly, hends⟩
  · exact hchildren hleaf
  · exact hquote operand honly hends

theorem ne_flags_of_isQuantifier (hquantifier : item.label.isQuantifier = true) (flags : Text) :
    item.label ≠ .flags flags := by
  intro hlabel
  rw [hlabel] at hquantifier
  exact Bool.noConfusion hquantifier

/-- A quantifier that was read can be put into an atomic group, unless it
    repeats the end of a quote. -/
theorem exists_excerpt_of_quantifier (hlast : (initial text).RunsTo last)
    (hitem : item ∈ last.explicit) (hquantifier : item.label.isQuantifier = true)
    (hchildren : item.children ≠ [])
    (hquote : ∀ operand, item.children = [operand] → ¬ operand.EndsQuote text item.stop)
    (hlt : item.stop < text.length) :
    ∃ a v, Excerpt text false a a v v ∧ v.RunsTo last ∧ a.cur.pos = item.start ∧
      v.cur.pos = item.stop := by
  obtain ⟨t, u, ht, hnext, hmore, hcompletes⟩ := exists_completes hlast hitem hchildren
  have hu : (initial text).RunsTo u := ht.tail hnext
  cases hcompletes with
  | closes houter hclose =>
    -- no frame closes into a quantifier
    have hroot := ((IsNormal.of_runsTo ht).nested_of_outer houter).1
    have hlabel := (start_close hclose hroot).2
    exact Bool.noConfusion (hquantifier.symm.trans (Opener.isQuantifier_of_label? hlabel))
  | quantifies _ hitems hstop =>
    have hbegin : (initial text).RunsTo (initial text) := .refl
    rcases exists_birth hbegin rfl hu.above_nil hitems
      (ne_flags_of_isQuantifier hquantifier) with hend | hends | ⟨a, v, hbirth⟩
    · exact absurd hend (rest_ne_nil_of_lt hu (hstop ▸ hlt))
    · exact absurd hends (not_endsQuoted hchildren hquote)
    · have hv : (initial text).RunsTo v := by
        obtain ⟨w, hstep, -, -, -, hinside⟩ := hbirth.inside
        exact (hbirth.before.runsTo.tail hstep).trans hinside.runsTo
      have hpos := hbirth.stop hchildren
      have hrest := rest_ne_nil_of_lt hv (hpos ▸ hlt)
      exact ⟨a, v, hbirth.excerpt hbegin hrest, hbirth.after.runsTo.trans hmore, hbirth.start, hpos⟩

/-- A group around nothing but a quantifier can be replaced by an atomic group
    around the quantifier, unless that repeats the end of a quote or the
    group switches the verbose mode. -/
theorem exists_excerpt_of_group {group : Node} {kind : GroupKind}
    (hlast : (initial text).RunsTo last) (hgroup : group ∈ last.explicit)
    (hkind : group.label = .group kind)
    (hunnamed : ∀ index name spelling, kind ≠ .named index name spelling)
    (hverbose : ∀ flags, kind = .nonCapturing (some flags) → 'x' ∉ flags)
    (hitem : item ∈ group.children) (hquantifier : item.label.isQuantifier = true)
    (hchildren : item.children ≠ [])
    (hquote : ∀ operand, item.children = [operand] → ¬ operand.EndsQuote text item.stop) :
    ∃ a b c d, Excerpt text kind.index?.isSome a b c d ∧ d.RunsTo last ∧
      a.cur.pos = group.start ∧ b.cur.pos = item.start ∧ c.cur.pos = item.stop ∧
      d.cur.pos = group.stop := by
  obtain ⟨t, u, ht, hnext, hmore, hcompletes⟩ :=
    exists_completes hlast hgroup (List.ne_nil_of_mem hitem)
  cases hcompletes with
  | quantifies hlabel =>
    rw [hkind] at hlabel
    exact Bool.noConfusion hlabel
  | @closes frame outer count houter hclose hstate =>
    have hroot := ((IsNormal.of_runsTo ht).nested_of_outer houter).1
    obtain ⟨hstart, hlabel⟩ := start_close hclose hroot
    have hopener : t.frame.opener = .group kind := by
      rw [hkind] at hlabel
      rcases Opener.cases_of_label? hlabel with ⟨kind', hopener, h⟩ | ⟨_, _, -, h⟩ | ⟨_, -, h⟩
      · rw [hopener, Label.group.inj h]
      · exact Label.noConfusion h
      · exact Label.noConfusion h
    obtain ⟨hfinished, hitems⟩ := Frame.items_of_close hclose hopener hitem hquantifier
    have hstack : t.frame :: t.outer = [] ++ t.frame :: frame :: outer := by
      rw [houter]
      rfl
    obtain ⟨o, c, hopening⟩ := exists_opening .refl ht.above_nil hstack List.nil_suffix
    have hc : (initial text).RunsTo c := hopening.before.runsTo.tail hopening.opens
    have hempty : c.frame.items = [] := by
      rw [hopening.opened]
      rfl
    have hinside : RunsAbove c.outer c t := by
      rw [hopening.inner]
      exact hopening.after
    rcases exists_birth hc hempty hinside hitems (ne_flags_of_isQuantifier hquantifier) with
      hend | hends | ⟨a, v, hbirth⟩
    · obtain ⟨x, rest, hrest, -⟩ := hnext
      simp [hend] at hrest
    · exact absurd hends (not_endsQuoted hchildren hquote)
    · refine ⟨o, a, v, u, ?_, hmore, ?_, hbirth.start, hbirth.stop hchildren, ?_⟩
      · exact hbirth.excerpt_of_opening hopening hitems hfinished hopener hunnamed hverbose houter
          hnext hstate
      · rw [hopening.start, hstart]
      · exact (stop_close hclose hroot).symm

end ParserState

/-! ## Section 3: Sites -/

/-- An ancestor was left by one of the steps that lead to a node. -/
theorem Visit.exists_step_of_mem_above {v a : Visit} (h : a ∈ v.above) :
    ∃ way step, v.path = way ++ step :: a.path ∧ step.parent = a.node := by
  obtain ⟨n, path⟩ := v
  induction path generalizing n with
  | nil => exact absurd h List.not_mem_nil
  | cons step path ih =>
    rw [above_cons] at h
    rcases List.mem_cons.mp h with rfl | h
    · exact ⟨[], step, rfl, rfl⟩
    · obtain ⟨way, step', hpath, hparent⟩ := ih _ h
      exact ⟨step :: way, step', congrArg (step :: ·) hpath, hparent⟩

/-- A group that can be replaced has no name. -/
theorem exists_kind_of_isReplaceableGroup {n : Node} (h : isReplaceableGroup n = true) :
    ∃ kind, n.label = .group kind ∧ ∀ index name spelling, kind ≠ .named index name spelling := by
  unfold isReplaceableGroup at h
  split at h
  next index hlabel => exact ⟨_, hlabel, nofun⟩
  next flags hlabel => exact ⟨_, hlabel, nofun⟩
  next => exact Bool.noConfusion h

/-- What an atomic group replaces under a quantifier: the node itself, or the
    group around it, which stands below the quantifier as well. -/
theorem atomicTarget_cases {v a : Visit} {root : Node} (hv : v ∈ root.visits) (ha : a ∈ v.above)
    (hquantifier : a.node.label.isQuantifier = true) :
    a.node.Below v.node ∧ a.node ∈ root.preorder ∧ (atomicTarget v = v.node ∨
      ∃ kind, (atomicTarget v).label = .group kind ∧
        (∀ index name spelling, kind ≠ .named index name spelling) ∧
        v.node ∈ (atomicTarget v).children ∧ a.node.Below (atomicTarget v)) := by
  have hleads := Node.mem_visits.mp hv
  obtain ⟨way, step, hpath, hparent⟩ := Visit.exists_step_of_mem_above ha
  rw [hpath] at hleads
  obtain ⟨habove, hbelow⟩ := hleads.through
  rw [hparent] at habove hbelow
  refine ⟨Node.below_iff.mpr ⟨step, way, hbelow⟩, Node.mem_preorder.mpr ⟨_, habove⟩, ?_⟩
  cases way with
  | nil =>
    -- the quantifier itself is right above
    have hkeep : isReplaceableGroup step.parent = false := by
      rw [hparent]
      unfold isReplaceableGroup
      generalize a.node.label = label at hquantifier
      cases label <;> first | rfl | exact Bool.noConfusion hquantifier
    left
    rw [List.nil_append] at hpath
    simp [atomicTarget, hpath, hkeep]
  | cons first way =>
    cases hreplace : isReplaceableGroup first.parent with
    | false =>
      left
      rw [List.cons_append] at hpath
      simp [atomicTarget, hpath, hreplace]
    | true =>
      right
      have htarget : atomicTarget v = first.parent := by
        rw [List.cons_append] at hpath
        simp [atomicTarget, hpath, hreplace]
      obtain ⟨kind, hkind, hunnamed⟩ := exists_kind_of_isReplaceableGroup hreplace
      obtain ⟨hgroup, hchildren⟩ := hbelow.last_step
      rw [htarget]
      refine ⟨kind, hkind, hunnamed, ?_, Node.below_iff.mpr ⟨step, way, hgroup⟩⟩
      rw [hchildren]
      exact List.mem_append_right _ List.mem_cons_self

theorem isQuantifier_of_isRepeating {n : Node} (h : n.isRepeating = true) :
    n.label.isQuantifier = true := by
  unfold Node.isRepeating at h
  generalize n.label = label at h
  cases label <;> first | rfl | exact Bool.noConfusion h

theorem Label.isImplicit_of_isQuantifier {label : Label} (h : label.isQuantifier = true) :
    label.isImplicit = false := by
  cases label <;> first | rfl | exact Bool.noConfusion h

/-- Nodes below a quantifier stand within it and end before it. -/
theorem Node.Encloses.of_below {n m : Node} (h : n.Encloses) (hn : n.label.isQuantifier = true)
    (hbelow : n.Below m) (hm : m.label.isImplicit = false) :
    n.start ≤ m.start ∧ m.stop < n.stop := by
  obtain ⟨child, hchild, hmem⟩ := hbelow
  have hexplicit := Node.mem_explicit.mpr ⟨hmem, hm⟩
  have hwhole := Node.mem_explicit.mpr ⟨mem_preorder_of_child hchild hmem, hm⟩
  exact ⟨(h.within m hwhole).1, h.strict hn child hchild m hexplicit⟩

/-- The nested site of a pattern as an excerpt: its target is replaced by an
    atomic group around the inner quantifier. -/
structure RiskSite.Cut (site : RiskSite) (text : Text) (last : ParserState) (missing : Bool)
    (a b c d : ParserState) : Prop where
  excerpt : ParserState.Excerpt text missing a b c d
  rest : d.RunsTo last
  target : a.cur.pos = (atomicTarget site.cause).start ∧ d.cur.pos = (atomicTarget site.cause).stop
  inner : b.cur.pos = site.cause.node.start ∧ c.cur.pos = site.cause.node.stop
  around : site.quantifier.node.start ≤ (atomicTarget site.cause).start ∧
    (atomicTarget site.cause).stop ≤ site.quantifier.node.stop
  counted : missing = true ↔ ∃ index, (atomicTarget site.cause).label = .group (.capturing index)

namespace Pattern

variable {text : Text} {p : Pattern} {site : RiskSite}

/-- If the text of a quantifier does not begin with the end of a quote, its
    operand does not end one. -/
theorem not_endsQuote_of_parse {n : Node} (h : parse text = .ok p) (hn : n ∈ p.root.preorder)
    (hquantifier : n.label.isQuantifier = true)
    (hquote : ¬ ['\\', 'E'] <+: p.quantifierText n) :
    n.children ≠ [] ∧
      ∀ operand, n.children = [operand] → ¬ operand.EndsQuote text n.stop := by
  obtain ⟨bounds, mode, hlabel⟩ : ∃ bounds mode, n.label = .quantifier bounds mode := by
    generalize n.label = label at hquantifier
    cases label with
    | quantifier bounds mode => exact ⟨bounds, mode, rfl⟩
    | _ => nomatch hquantifier
  have htext : p.text = text := by
    obtain ⟨-, -, -, -, -, rfl⟩ := parse_eq_ok_iff.mp h
    rfl
  constructor
  · obtain ⟨operand, -, -, -, hchildren, -⟩ := standsBehindOperand_of_parse h hn bounds mode hlabel
    rw [hchildren]
    exact List.cons_ne_nil _ _
  · intro operand hchildren hends
    apply hquote
    rw [quantifierText, hchildren, htext]
    exact hends

section Target

variable {last : ParserState} {o q : Visit} {depth : Nat}

/-- A quantifier in no replaceable group is put into the atomic group as it
    stands. -/
theorem exists_cut_of_kept (hlast : (ParserState.initial text).RunsTo last)
    (hexplicit : q.node ∈ last.explicit) (hinner : q.node.label.isQuantifier = true)
    (hsome : q.node.children ≠ [])
    (hquote : ∀ operand, q.node.children = [operand] → ¬ operand.EndsQuote text q.node.stop)
    (hwithin : o.node.start ≤ q.node.start ∧ q.node.stop < o.node.stop)
    (hend : o.node.stop ≤ text.length) (hsame : atomicTarget q = q.node) :
    ∃ a v, RiskSite.Cut ⟨.nestedQuantifier, o, q, depth⟩ text last false a a v v := by
  obtain ⟨a, v, hexcerpt, hrest, hstart, hstop⟩ := ParserState.exists_excerpt_of_quantifier hlast
    hexplicit hinner hsome hquote (Nat.lt_of_lt_of_le hwithin.2 hend)
  refine ⟨a, v, hexcerpt, hrest, ?_, ⟨hstart, hstop⟩, ?_, ?_⟩
  · dsimp only
    rw [hsame]
    exact ⟨hstart, hstop⟩
  · dsimp only
    rw [hsame]
    exact ⟨hwithin.1, hwithin.2.le⟩
  · refine iff_of_false Bool.false_ne_true fun hgroup => ?_
    obtain ⟨index, hindex⟩ := hgroup
    dsimp only at hindex
    rw [hsame] at hindex
    rw [hindex] at hinner
    nomatch hinner

/-- A group around nothing but a quantifier becomes the atomic group. -/
theorem exists_cut_of_group {kind : GroupKind} (hlast : (ParserState.initial text).RunsTo last)
    (hexplicit : atomicTarget q ∈ last.explicit) (hlabel : (atomicTarget q).label = .group kind)
    (hunnamed : ∀ index name spelling, kind ≠ .named index name spelling)
    (hverbose : ∀ flags, kind = .nonCapturing (some flags) → 'x' ∉ flags)
    (hchild : q.node ∈ (atomicTarget q).children) (hinner : q.node.label.isQuantifier = true)
    (hsome : q.node.children ≠ [])
    (hquote : ∀ operand, q.node.children = [operand] → ¬ operand.EndsQuote text q.node.stop)
    (hwithin : o.node.start ≤ (atomicTarget q).start ∧ (atomicTarget q).stop < o.node.stop) :
    ∃ a b c d, RiskSite.Cut ⟨.nestedQuantifier, o, q, depth⟩ text last kind.index?.isSome
      a b c d := by
  obtain ⟨a, b, c, d, hexcerpt, hrest, hstart, hinside, hoff, hstop⟩ :=
    ParserState.exists_excerpt_of_group hlast hexplicit hlabel hunnamed hverbose hchild hinner
      hsome hquote
  refine ⟨a, b, c, d, hexcerpt, hrest, ⟨hstart, hstop⟩, ⟨hinside, hoff⟩,
    ⟨hwithin.1, hwithin.2.le⟩, ?_⟩
  dsimp only
  rw [hlabel]
  cases kind with
  | capturing index => exact iff_of_true rfl ⟨index, rfl⟩
  | named index name spelling => exact absurd rfl (hunnamed index name spelling)
  | nonCapturing flags => exact iff_of_false Bool.false_ne_true nofun
  | atomic => exact iff_of_false Bool.false_ne_true nofun

end Target

/-- Every nested site can be cut out, unless its inner quantifier repeats the
    end of a quote or its target switches the verbose mode. -/
theorem exists_cut {last : ParserState} (h : parse text = .ok p)
    (hlast : (ParserState.initial text).RunsTo last) (hexplicit : p.root.explicit = last.explicit)
    (hsite : site ∈ (scanRepetition p.root).sites) (hkind : site.kind = .nestedQuantifier)
    (hquote : ¬ ['\\', 'E'] <+: p.quantifierText site.cause.node)
    (hverbose : ∀ flags, (atomicTarget site.cause).label = .group (.nonCapturing (some flags)) →
      'x' ∉ flags) :
    ∃ missing a b c d, site.Cut text last missing a b c d := by
  obtain ⟨q, hq, o, ho, hrepeating, rfl⟩ : ∃ q ∈ p.root.visits, ∃ o, q.enclosing? = some o ∧
      q.node.isRepeating = true ∧ site = ⟨.nestedQuantifier, o, q, q.depth⟩ := by
    rcases mem_sites_scanRepetition.mp hsite with
      ⟨q, hq, o, ho, hrepeating, -, rfl⟩ | ⟨x, -, o, -, -, rfl⟩
    · exact ⟨q, hq, o, ho, hrepeating, rfl⟩
    · nomatch hkind
  have hinner := isQuantifier_of_isRepeating hrepeating
  have hrepeats : o.node.isRepeating = true :=
    List.find?_some (p := fun a : Visit => a.node.isRepeating) ho
  have houter := isQuantifier_of_isRepeating hrepeats
  obtain ⟨hbelow, ho', hcases⟩ := atomicTarget_cases hq (List.mem_of_find?_eq_some ho) houter
  -- what the pattern says of the two quantifiers
  have hmem : ∀ n ∈ p.root.preorder, n.label.isImplicit = false → n ∈ last.explicit := by
    intro n hn himplicit
    exact hexplicit ▸ Node.mem_explicit.mpr ⟨hn, himplicit⟩
  have hspanned := ParserState.IsSpanned.of_runsTo hlast
  have houter' := hmem o.node ho' (Label.isImplicit_of_isQuantifier houter)
  have hencloses := hspanned.encloses o.node houter'
  have hq' : q.node ∈ p.root.preorder := List.mem_map.mpr ⟨q, hq, rfl⟩
  have hinner' := Label.isImplicit_of_isQuantifier hinner
  obtain ⟨hsome, hquote'⟩ := not_endsQuote_of_parse h hq' hinner hquote
  rcases hcases with hsame | ⟨kind, hlabel, hunnamed, hchild, htarget⟩
  · have hend : o.node.stop ≤ text.length := by
      obtain ⟨f, hf, hof⟩ := ParserState.mem_explicit_iff.mp houter'
      exact Nat.le_trans (hspanned.spans f hf o.node hof).2 hlast.pos_le_length
    obtain ⟨a, v, hcut⟩ := exists_cut_of_kept hlast (hmem q.node hq' hinner') hinner hsome hquote'
      (hencloses.of_below houter hbelow hinner') hend hsame
    exact ⟨false, a, a, v, v, hcut⟩
  · have himplicit : (atomicTarget q).label.isImplicit = false := by
      rw [hlabel]
      rfl
    have htarget' := Node.mem_preorder_trans ho' htarget.mem_preorder
    obtain ⟨a, b, c, d, hcut⟩ := exists_cut_of_group hlast (hmem _ htarget' himplicit) hlabel hunnamed
      (fun flags heq => hverbose flags (heq ▸ hlabel)) hchild hinner hsome hquote'
      (hencloses.of_below houter htarget himplicit)
    exact ⟨kind.index?.isSome, a, b, c, d, hcut⟩

/-- With the rewrite that is suggested put in place of the quantifier of a
    nested site, the pattern is accepted exactly when its references survive
    that the capturing group around the inner quantifier is dropped, if there
    is one.  The inner quantifier must not repeat the end of a quote, since
    its text then lacks the beginning of the quote, and the verbose mode must
    not be switched by the group that is replaced. -/
theorem rewritten_accepted_iff (h : parse text = .ok p)
    (hsite : site ∈ (scanRepetition p.root).sites) (hkind : site.kind = .nestedQuantifier)
    (hquote : ¬ ['\\', 'E'] <+: p.quantifierText site.cause.node)
    (hverbose : ∀ flags, (atomicTarget site.cause).label = .group (.nonCapturing (some flags)) →
      'x' ∉ flags) :
    p.suggestFix site = "Use an atomic group or possessive quantifier: " ++
        String.ofList (rewriteNested p.text site) ∧
      ((∃ q, parse (p.rewritten site) = .ok q) ↔
        ∀ index, (atomicTarget site.cause).label = .group (.capturing index) →
          ∀ r ∈ p.references,
            r.Survives p.text (atomicTarget site.cause).start p.groupCount) := by
  obtain ⟨last, root, hlast, hend, hfinish, hp⟩ := parse_eq_ok_iff.mp h
  have htext : p.text = text := by rw [hp]
  have hgroups : p.groupCount = last.groups := by rw [hp]
  have hreferences : p.references = last.references := references_of_runsTo (htext ▸ hlast) hend
  have hexplicit : p.root.explicit = last.explicit := by
    rw [hp]
    exact (ParserState.IsNormal.of_runsTo hlast).explicit_finish hfinish
  obtain ⟨missing, a, b, c, d, hcut⟩ :=
    exists_cut h hlast hexplicit hsite hkind hquote hverbose
  have hrewritten : p.rewritten site =
      ParserState.excerptText text a.cur.pos b.cur.pos c.cur.pos d.cur.pos := by
    rw [rewritten_eq_excerptText hcut.around.1 hcut.around.2, htext, hcut.target.1, hcut.inner.1,
      hcut.inner.2, hcut.target.2]
  refine ⟨by rw [suggestFix, hkind], ?_⟩
  rw [hcut.excerpt.accepted_iff hrewritten hcut.rest hend hfinish, hcut.counted, hreferences, htext,
    hgroups, hcut.target.1]
  constructor
  · intro hall index hindex
    exact hall ⟨index, hindex⟩
  · intro hall hindex
    obtain ⟨index, hindex⟩ := hindex
    exact hall index hindex

/-- A group that nothing refers to is dropped, and the relative reference
    behind it is counted anew. -/
theorem rewritten_accepted_of_relative :
    ∃ p site q, parse "(a+)+(b)\\g{-1}".toList = .ok p ∧
      site ∈ (scanRepetition p.root).sites ∧ site.kind = .nestedQuantifier ∧
      p.rewritten site = "(?>a+)+(b)\\g{-1}".toList ∧ parse (p.rewritten site) = .ok q := by
  have hcheck : (parse "(a+)+(b)\\g{-1}".toList).toOption.any (fun p =>
      (scanRepetition p.root).sites.any fun site =>
        site.kind == .nestedQuantifier &&
          (atomicTarget site.cause).label == .group (.capturing 1) &&
          decide (¬ ['\\', 'E'] <+: p.quantifierText site.cause.node) &&
          p.rewritten site == "(?>a+)+(b)\\g{-1}".toList &&
          p.references.all fun r =>
            r.Survives p.text (atomicTarget site.cause).start p.groupCount) = true := by
    decide +kernel
  obtain ⟨p, hp, hcheck⟩ := exists_of_check hcheck
  obtain ⟨site, hsite, hcheck⟩ := List.any_eq_true.mp hcheck
  simp only [Bool.and_eq_true, beq_iff_eq, List.all_eq_true, decide_eq_true_eq] at hcheck
  obtain ⟨⟨⟨⟨hkind, htarget⟩, hquote⟩, hrewritten⟩, hall⟩ := hcheck
  obtain ⟨-, haccepted⟩ := rewritten_accepted_iff hp hsite hkind hquote fun flags hlabel => by
    rw [htarget] at hlabel
    nomatch hlabel
  obtain ⟨q, hq⟩ := haccepted.mpr fun _ _ => hall
  exact ⟨p, site, q, hp, hsite, hkind, hrewritten, hq⟩

end Pattern

/-- A group that is referred to is dropped all the same, and the pattern is
    no longer accepted. -/
theorem not_accepted_of_referred :
    ∃ p site e, Pattern.parse "(a+)+\\1".toList = .ok p ∧
      site ∈ (scanRepetition p.root).sites ∧ site.kind = .nestedQuantifier ∧
      p.suggestFix site = "Use an atomic group or possessive quantifier: (?>a+)+" ∧
      p.rewritten site = "(?>a+)+\\1".toList ∧ Pattern.parse (p.rewritten site) = .error e := by
  have hcheck : (Pattern.parse "(a+)+\\1".toList).toOption.any (fun p =>
      (scanRepetition p.root).sites.any fun site =>
        site.kind == .nestedQuantifier && rewriteNested p.text site == "(?>a+)+".toList &&
          p.rewritten site == "(?>a+)+\\1".toList) = true := by
    decide +kernel
  obtain ⟨p, hp, hcheck⟩ := Pattern.exists_of_check hcheck
  obtain ⟨site, hsite, hcheck⟩ := List.any_eq_true.mp hcheck
  simp only [Bool.and_eq_true, beq_iff_eq] at hcheck
  obtain ⟨⟨hkind, hrewrite⟩, hrewritten⟩ := hcheck
  have hsuggest : p.suggestFix site = "Use an atomic group or possessive quantifier: (?>a+)+" := by
    simp only [Pattern.suggestFix, hkind, hrewrite]
    rfl
  have hfail : (Pattern.parse "(?>a+)+\\1".toList).toOption.isNone = true := by decide +kernel
  cases hparse : Pattern.parse (p.rewritten site) with
  | ok q => simp [← hrewritten, hparse, Except.toOption] at hfail
  | error e => exact ⟨p, site, e, hp, hsite, hkind, hsuggest, hrewritten, hparse⟩

end RegexInsight
