import Mathlib
import RegexInsight.Proofs.Pattern.Head
import RegexInsight.Proofs.Pattern.Stack

/-! # Mirrored runs

    Two texts that share a piece are read alike there, wherever it stands in
    them: a run over the piece in one text is mirrored by a run in the other.
    Frames need not be the same for this; it is enough that they skip
    the same and close alike.  The second run may have opened one group less.
    Then a reference with a sign leads to the group before, and if there is
    none the second run comes to an end at it. -/

namespace RegexInsight

/-! ## Section 1: Frames -/

namespace Frame

variable {f g : Frame} {count stop : Nat} {node : Node}

/-- A quantifier may follow in the current branch. -/
def isReady (f : Frame) : Bool :=
  !f.quantified && f.items.head?.any fun item => item.label.isRepeatable

/-- The same is skipped in both frames, and the second one closes where the
    first one does. -/
structure Alike (f g : Frame) : Prop where
  verbose : g.modes.verbose = f.modes.verbose
  conditional : ∀ condition, g.opener = .conditional condition →
    f.opener = .conditional condition ∧ g.finished.length = f.finished.length

theorem Alike.push_left (h : f.Alike g) (item : Node) : (f.push item).Alike g :=
  ⟨h.verbose, h.conditional⟩

theorem Alike.push_right (h : f.Alike g) (item : Node) : f.Alike (g.push item) :=
  ⟨h.verbose, h.conditional⟩

theorem Alike.verbose_apply (h : f.Alike g) (text : Text) :
    (g.modes.apply text).verbose = (f.modes.apply text).verbose := by
  simp only [Modes.apply, h.verbose]

theorem Alike.nextBranch (h : f.Alike g) : f.nextBranch.Alike g.nextBranch where
  verbose := h.verbose
  conditional := by
    intro condition hopener
    obtain ⟨hsame, hlength⟩ := h.conditional condition hopener
    refine ⟨hsame, ?_⟩
    show (g.items.reverse :: g.finished).length = (f.items.reverse :: f.finished).length
    rw [List.length_cons, List.length_cons, hlength]

theorem alike_opened {opener opener' : Opener} {start start' : Nat} {modes modes' : Modes}
    (hverbose : modes'.verbose = modes.verbose)
    (hopener : ∀ condition, opener' = .conditional condition → opener = .conditional condition) :
    (opened opener start modes).Alike (opened opener' start' modes') where
  verbose := hverbose
  conditional condition h := ⟨hopener condition h, rfl⟩

/-- Below the root a frame that is alike closes, into something that can be
    repeated. -/
theorem Alike.exists_close (h : f.Alike g) (hroot : g.opener ≠ .root)
    (hclose : f.close count stop = .ok (node, n)) (count' stop' : Nat) :
    ∃ node' n', g.close count' stop' = .ok (node', n') ∧ node'.label.isRepeatable = true := by
  unfold close
  cases hopener : g.opener with
  | root => exact absurd hopener hroot
  | group => exact ⟨_, _, rfl, rfl⟩
  | lookaround => exact ⟨_, _, rfl, rfl⟩
  | conditional condition =>
    obtain ⟨hsame, hlength⟩ := h.conditional condition hopener
    -- the first frame has as many branches
    have hbranches : g.branches.length = f.branches.length := by
      simp [branches, hlength]
    have hfew : ¬ (closeBranches count' stop' g.branches).1.length > 2 := by
      cases f.closed_of_close hclose with
      | conditional _ hfew =>
        rw [length_closeBranches] at hfew ⊢
        omega
      | root hopener | lookaround hopener | group hopener =>
        rw [hsame] at hopener
        exact Opener.noConfusion hopener
    dsimp only
    rw [if_neg hfew]
    exact ⟨_, _, rfl, rfl⟩

end Frame

/-! ## Section 2: States -/

/-- A place in the text of the first run from which on the second one may
    have opened one group less. -/
structure Recount where
  text : Text
  mark : Nat
  missing : Bool

namespace Recount

/-- A reference at this position leads to another group in the second
    run. -/
def Moves (e : Recount) (position : Nat) : Prop :=
  e.missing = true ∧ e.mark ≤ position ∧ showsSign (e.text.drop position) = true

/-- The second reference stands for the first one. -/
inductive Tracks (e : Recount) (r r' : Reference) : Prop where
  | stays (hfixed : ¬ e.Moves r.position) (htarget : r'.target = r.target)
  | moves {number : Nat} (hmoves : e.Moves r.position) (hpos : 0 < number)
      (htarget : r.target = Nat.toDigits 10 (number + 1))
      (htarget' : r'.target = Nat.toDigits 10 number)

/-- A reference without a sign is the same in the second run. -/
theorem tracks_of_unsigned {e : Recount} {target : Text} {position : Nat}
    (hsign : showsSign (e.text.drop position) = false) (position' : Nat) :
    e.Tracks ⟨target, position⟩ ⟨target, position'⟩ := by
  refine .stays (fun hmoves => ?_) rfl
  rw [hmoves.2.2] at hsign
  exact Bool.noConfusion hsign

end Recount

/-- What stays the same while a run is mirrored: how references are counted,
    and the frames that neither run closes. -/
structure Framing extends Recount where
  below : List Frame
  below' : List Frame

namespace Framing

variable {e : Framing} {s t : ParserState}

/-- The second state mirrors the first one. -/
structure Mirrors (e : Framing) (s t : ParserState) : Prop where
  frame : s.frame.Alike t.frame
  outer : ∃ inner inner', s.outer = inner ++ e.below ∧ t.outer = inner' ++ e.below' ∧
    List.Forall₂ Frame.Alike inner inner'
  groups : s.groups = t.groups + e.missing.toNat
  names : t.names.map Prod.fst = s.names.map Prod.fst
  references : List.Forall₂ e.Tracks s.references t.references

/-- Two runs begin alike, whatever their texts. -/
theorem mirrors_initial (text text' : Text) :
    Mirrors ⟨⟨text, 0, false⟩, [], []⟩ (.initial text) (.initial text') :=
  ⟨Frame.alike_opened rfl nofun, ⟨[], [], rfl, rfl, .nil⟩, rfl, rfl, .nil⟩

namespace Mirrors

theorem moveTo (h : e.Mirrors s t) (cur cur' : Cursor) :
    e.Mirrors (s.moveTo cur) (t.moveTo cur') :=
  ⟨h.frame, h.outer, h.groups, h.names, h.references⟩

theorem withFrames (h : e.Mirrors s t) {f g : Frame} (hframe : f.Alike g) :
    e.Mirrors { s with frame := f } { t with frame := g } :=
  ⟨hframe, h.outer, h.groups, h.names, h.references⟩

theorem addLeaf_left (h : e.Mirrors s t) (leaf : Escape.Leaf) : e.Mirrors (s.addLeaf leaf) t :=
  ⟨h.frame.push_left _, h.outer, h.groups, h.names, h.references⟩

theorem addLeaf_right (h : e.Mirrors s t) (leaf : Escape.Leaf) : e.Mirrors s (t.addLeaf leaf) :=
  ⟨h.frame.push_right _, h.outer, h.groups, h.names, h.references⟩

theorem addLeaf (h : e.Mirrors s t) (leaf leaf' : Escape.Leaf) :
    e.Mirrors (s.addLeaf leaf) (t.addLeaf leaf') :=
  (h.addLeaf_left leaf).addLeaf_right leaf'

theorem addLeaves (h : e.Mirrors s t) (leaves leaves' : List Escape.Leaf) :
    e.Mirrors (leaves.foldl ParserState.addLeaf s) (leaves'.foldl ParserState.addLeaf t) := by
  have hleft : e.Mirrors (leaves.foldl ParserState.addLeaf s) t := by
    induction leaves generalizing s with
    | nil => exact h
    | cons leaf rest ih => exact ih (h.addLeaf_left leaf)
  clear h
  induction leaves' generalizing t with
  | nil => exact hleft
  | cons leaf rest ih => exact ih (hleft.addLeaf_right leaf)

theorem refer (h : e.Mirrors s t) {target target' : Text} {position position' : Nat}
    (htracks : e.Tracks ⟨target, position⟩ ⟨target', position'⟩) :
    e.Mirrors (s.refer target position) (t.refer target' position') :=
  ⟨h.frame, h.outer, h.groups, h.names, .cons htracks h.references⟩

theorem enter (h : e.Mirrors s t) {opener opener' : Opener} {start start' : Nat}
    {modes modes' : Modes} {cur cur' : Cursor} (hverbose : modes'.verbose = modes.verbose)
    (hopener : ∀ condition, opener' = .conditional condition → opener = .conditional condition) :
    e.Mirrors (s.enter opener start modes cur) (t.enter opener' start' modes' cur') where
  frame := Frame.alike_opened hverbose hopener
  outer := by
    obtain ⟨inner, inner', houter, houter', halike⟩ := h.outer
    refine ⟨s.frame :: inner, t.frame :: inner', ?_, ?_, .cons h.frame halike⟩
    · exact congrArg (s.frame :: ·) houter
    · exact congrArg (t.frame :: ·) houter'
  groups := h.groups
  names := h.names
  references := h.references

theorem count (h : e.Mirrors s t) {groups groups' : Nat} {names names' : List (Text × Nat)}
    (hgroups : groups = groups' + e.missing.toNat)
    (hnames : names'.map Prod.fst = names.map Prod.fst) :
    e.Mirrors { s with groups := groups, names := names }
      { t with groups := groups', names := names' } :=
  ⟨h.frame, h.outer, hgroups, hnames, h.references⟩

end Mirrors

/-! ## Section 3: Outcomes -/

/-- A quantifier may follow in the second state if one may in the first. -/
def Ready (s t : ParserState) : Prop :=
  s.frame.isReady = true → t.frame.isReady = true

/-- What the second run may read where the first one read on to `s'`: the
    same, up to its own cursor, unless it comes to a reference that leads to
    no group any more. -/
inductive Answers (e : Framing) (s' : ParserState) (cur : Cursor) : Read ParserState → Prop
  | reads {t' : ParserState} (hcur : t'.cur = cur) (hmirrors : e.Mirrors s' t')
      (hready : Ready s' t') : Answers e s' cur (.ok t')
  | lost {r : Reference} {error : ReadError} (hr : r ∈ s'.references)
      (hmoves : e.Moves r.position) (htarget : r.target = Nat.toDigits 10 1) :
      Answers e s' cur (.error error)

/-- Two readers stand at `cur` and `cur'`; from there the first one reads on
    to `s'`, and the second one has the same characters up to `stop`. -/
structure Faces (e : Framing) (s t s' : ParserState) (cur cur' stop : Cursor) : Prop where
  mirrors : e.Mirrors s t
  shared : ∀ n, s'.cur = cur.advance n → cur.Matches cur' n ∧ cur'.advance n = stop

variable {s' : ParserState} {cur cur' stop : Cursor} {start start' : Nat}

theorem Faces.agrees (h : e.Faces s t s' cur cur' stop) (n : Nat) (hcur : s'.cur = cur.advance n) :
    cur.Agrees cur' n ∧ cur'.advance n = stop :=
  ⟨(h.shared n hcur).1.agrees, (h.shared n hcur).2⟩

theorem answers_enter (h : e.Mirrors s t) {opener opener' : Opener} {modes modes' : Modes}
    (hverbose : modes'.verbose = modes.verbose)
    (hopener : ∀ condition, opener' = .conditional condition → opener = .conditional condition) :
    e.Answers (s.enter opener start modes cur) cur'
      (.ok (t.enter opener' start' modes' cur')) :=
  .reads rfl (h.enter hverbose hopener) fun hready => Bool.noConfusion hready

theorem answers_addLeaf (h : e.Mirrors s t) {leaf leaf' : Escape.Leaf}
    (hleaf : leaf'.label.isRepeatable = leaf.label.isRepeatable) :
    e.Answers ((s.addLeaf leaf).moveTo cur) cur' (.ok ((t.addLeaf leaf').moveTo cur')) := by
  refine .reads rfl ((h.addLeaf leaf leaf').moveTo _ _) fun hready => ?_
  show leaf'.label.isRepeatable = true
  rw [hleaf]
  exact hready

/-! ## Section 4: References -/

/-- A reference that is made absolute leads to the group that it led to,
    counted anew if it is relative. -/
theorem tracks_of_absoluteReference (h : e.Mirrors s t) {position : Nat}
    {written reference : Text} (hmark : e.mark ≤ position)
    (hsign : written.head?.any isSign = showsSign (e.text.drop position))
    (hread : Escape.absoluteReference start s.groups written = .ok reference)
    (start' position' : Nat) :
    (∃ reference', Escape.absoluteReference start' t.groups written = .ok reference' ∧
        e.Tracks ⟨reference, position⟩ ⟨reference', position'⟩) ∨
      ((∃ error, Escape.absoluteReference start' t.groups written = .error error) ∧
        e.Moves position ∧ reference = Nat.toDigits 10 1) := by
  rw [← Escape.isSome_signedDigits? hread] at hsign
  cases hsigned : Escape.signedDigits? written with
  | none =>
    rw [hsigned] at hsign
    obtain ⟨-, hread'⟩ := Escape.absoluteReference_unsigned hread hsigned start' t.groups
    have hfixed : ¬ e.Moves position := by
      intro hmoves
      rw [hmoves.2.2] at hsign
      exact Bool.noConfusion hsign
    exact .inl ⟨reference, hread', .stays hfixed rfl⟩
  | some found =>
    obtain ⟨backward, digits⟩ := found
    have hgroups := h.groups
    cases hmissing : e.missing with
    | false =>
      -- as many groups have been opened
      have hsame : s.groups = t.groups := by
        rw [hgroups, hmissing]
        rfl
      have hread' : Escape.absoluteReference start' t.groups written = .ok reference :=
        hsame ▸ Escape.absoluteReference_anywhere hread start'
      have hfixed : ¬ e.Moves position := by
        intro hmoves
        rw [hmoves.1] at hmissing
        exact Bool.noConfusion hmissing
      exact .inl ⟨reference, hread', .stays hfixed rfl⟩
    | true =>
      rw [hmissing] at hgroups
      have hsome : (Escape.signedDigits? written).isSome = true := by rw [hsigned]; rfl
      have hmoves : e.Moves position := ⟨hmissing, hmark, hsign.symm.trans hsome⟩
      have hread' : Escape.absoluteReference start (t.groups + 1) written = .ok reference := by
        rw [← hread, hgroups]
        rfl
      obtain ⟨number, rfl, hsucc, hzero⟩ := Escape.absoluteReference_pred hread' hsome start'
      rcases Nat.eq_zero_or_pos number with rfl | hpos
      · exact .inr ⟨hzero rfl, hmoves, rfl⟩
      · exact .inl ⟨_, hsucc hpos, .moves hmoves hpos rfl rfl⟩

/-! ## Section 5: Openings -/

/-- A head does the same to both states. -/
theorem Mirrors.answers_act {head : Head} (h : e.Mirrors s t) (hmark : e.mark ≤ start)
    (hsign : head.refers = true → showsSign (e.text.drop start) = head.isSigned)
    (hfirst : s'.frame = s.frame → s'.outer = s.outer → Ready s t)
    (hact : head.act s start cur = .ok s') : e.Answers s' cur' (head.act t start' cur') := by
  cases head with
  | capturing =>
    obtain rfl := Except.ok.inj hact
    refine answers_enter (h.count ?_ h.names) h.frame.verbose fun _ => Opener.noConfusion
    have hgroups := h.groups
    omega
  | comment inner =>
    obtain rfl := Except.ok.inj hact
    exact .reads rfl (h.moveTo _ _) (hfirst rfl rfl)
  | plain | atomic | lookaround =>
    obtain rfl := Except.ok.inj hact
    exact answers_enter h h.frame.verbose fun _ => Opener.noConfusion
  | named name spelling =>
    obtain ⟨hfresh, hstate⟩ := Read.guard_eq_ok.mp hact
    obtain rfl := Except.ok.inj hstate
    -- the same names are taken
    have hany : ∀ names : List (Text × Nat), (names.any fun entry => entry.1 == name) =
        (names.map Prod.fst).any fun taken => taken == name := by
      intro names
      rw [List.any_map]
      rfl
    have hfresh' : ¬ (t.names.any fun entry => entry.1 == name) = true := by
      rw [hany, h.names, ← hany]
      exact hfresh
    rw [Head.act, if_neg hfresh']
    refine answers_enter (h.count ?_ ?_) h.frame.verbose fun _ => Opener.noConfusion
    · have hgroups := h.groups
      omega
    · rw [List.map_append, List.map_append, h.names]
      rfl
  | backreference | nameCall =>
    obtain rfl := Except.ok.inj hact
    exact answers_addLeaf (h.refer (Recount.tracks_of_unsigned (hsign rfl) start')) rfl
  | wholeCall =>
    obtain rfl := Except.ok.inj hact
    exact answers_addLeaf h rfl
  | numberCall target =>
    obtain ⟨reference, hreference, hstate⟩ := Read.bind_eq_ok.mp hact
    obtain rfl := Except.ok.inj hstate
    rcases tracks_of_absoluteReference h hmark (hsign rfl).symm hreference start' start' with
      ⟨reference', hreference', htracks⟩ | ⟨⟨error, herror⟩, hmoves, hone⟩
    · rw [Head.act, hreference']
      exact answers_addLeaf (h.refer htracks) rfl
    · rw [Head.act, herror]
      exact .lost List.mem_cons_self hmoves hone
  | conditional condition =>
    obtain rfl := Except.ok.inj hact
    exact answers_enter (h.refer (Recount.tracks_of_unsigned (hsign rfl) start')) h.frame.verbose
      fun _ heq => heq
  | flags text =>
    obtain rfl := Except.ok.inj hact
    refine answers_addLeaf (h.withFrames ?_) rfl
    exact ⟨h.frame.verbose_apply text, h.frame.conditional⟩
  | flagGroup text =>
    obtain rfl := Except.ok.inj hact
    exact answers_enter h (h.frame.verbose_apply text) fun _ => Opener.noConfusion

theorem Faces.readOpening {rest : Text} (h : e.Faces s t s' s.cur t.cur stop)
    (hplace : s.cur.rest = e.text.drop s.cur.pos) (hmark : e.mark ≤ s.cur.pos)
    (hrest : s.cur.rest = '(' :: rest)
    (hfirst : s'.frame = s.frame → s'.outer = s.outer → Ready s t)
    (hread : s.readOpening = .ok s') : e.Answers s' stop t.readOpening := by
  obtain ⟨head, n, hhead, hact⟩ := ParserState.exists_headAt hrest hread
  obtain ⟨hagrees, rfl⟩ := h.agrees n (Head.cur_of_act hact)
  rw [hhead.reads t hagrees]
  exact h.mirrors.answers_act hmark (hplace ▸ hhead.signed) hfirst hact

/-! ## Section 6: Closings, quantifiers and leaves -/

theorem Faces.readClosing (h : e.Faces s t s' s.cur t.cur stop) (hcur : s'.cur = s.cur.advance 1)
    (hbelow : e.below <:+ s'.outer) (hnormal : t.IsNormal) (hread : s.readClosing = .ok s') :
    e.Answers s' stop t.readClosing := by
  obtain ⟨-, rfl⟩ := h.agrees 1 hcur
  obtain ⟨frame, outer, node, count, houter, hclose, rfl⟩ := ParserState.exists_of_readClosing hread
  obtain ⟨inner, inner', hinner, hinner', halike⟩ := h.mirrors.outer
  cases halike with
  | nil =>
    -- the frame around the current one would not be closed
    have hlong := hbelow.length_le
    rw [houter, List.nil_append] at hinner
    rw [← hinner, List.length_cons] at hlong
    exact absurd hlong (by show ¬ outer.length + 1 ≤ outer.length; omega)
  | @cons f g rest rest' hfirst hrest =>
    rw [houter, List.cons_append] at hinner
    obtain ⟨rfl, rfl⟩ := List.cons.inj hinner
    rw [List.cons_append] at hinner'
    have hroot := (hnormal.nested_of_outer hinner').1
    obtain ⟨node', count', hclose', hnode'⟩ :=
      h.mirrors.frame.exists_close hroot hclose t.count (t.cur.advance 1).pos
    simp only [ParserState.readClosing, hinner', hclose']
    exact .reads rfl
      { frame := (hfirst.push_left node).push_right node'
        outer := ⟨rest, rest', rfl, rfl, hrest⟩
        groups := h.mirrors.groups
        names := h.mirrors.names
        references := h.mirrors.references } fun _ => hnode'

theorem Faces.applyQuantifier {bounds : Bounds} {after : Cursor}
    (h : e.Faces s t s' s.cur t.cur stop)
    (hbounds : Bounds.read? s.cur = .ok (some (bounds, after)))
    (hready : Ready s t) (hread : s.applyQuantifier bounds after = .ok s') :
    ∃ after', Bounds.read? t.cur = .ok (some (bounds, after')) ∧
      e.Answers s' stop (t.applyQuantifier bounds after') := by
  obtain ⟨hordered, hfirst, item, items, mode, after, hitems, hitem, hmode, rfl⟩ :=
    ParserState.applyQuantifier_eq_ok_iff.mp hread
  obtain ⟨n, -, -, rfl, hcut⟩ := Bounds.read?_cut hbounds
  obtain ⟨m, -, rfl, hcut'⟩ := QuantifierMode.read_cut hmode
  obtain ⟨hagrees, rfl⟩ := h.agrees (n + m) (Cursor.advance_advance _ _ _)
  refine ⟨_, hcut t.cur (hagrees.mono (Nat.le_add_right n m)), ?_⟩
  have hmode' := hcut' (t.cur.advance n) hagrees.advance
  -- the second state has an item to repeat, too
  have hsome : s.frame.isReady = true := by
    simp [Frame.isReady, hfirst, hitems, hitem]
  have hsome' := hready hsome
  rw [Frame.isReady, Bool.and_eq_true, Bool.not_eq_true'] at hsome'
  obtain ⟨hfirst', hlast⟩ := hsome'
  obtain ⟨item', hitem', hrepeatable'⟩ := (Option.any_eq_true _ _).mp hlast
  obtain ⟨items', hitems'⟩ := List.head?_eq_some_iff.mp hitem'
  rw [ParserState.applyQuantifier_eq_ok_iff.mpr
    ⟨hordered, hfirst', item', items', mode, _, hitems', hrepeatable', hmode', rfl⟩]
  refine .reads (Cursor.advance_advance _ _ _)
    ⟨⟨h.mirrors.frame.verbose, h.mirrors.frame.conditional⟩, h.mirrors.outer, h.mirrors.groups,
      h.mirrors.names, h.mirrors.references⟩ fun hready => Bool.noConfusion hready

/-- Behind the same leaves a quantifier may follow in both states or in
    none. -/
theorem ready_addLeaves {leaves leaves' : List Escape.Leaf}
    (hsame : leaves'.map (fun leaf => leaf.label.isRepeatable) =
      leaves.map fun leaf => leaf.label.isRepeatable)
    (hempty : leaves = [] → Ready s t) :
    Ready (leaves.foldl ParserState.addLeaf s) (leaves'.foldl ParserState.addLeaf t) := by
  rcases List.eq_nil_or_concat leaves with rfl | ⟨before, last, rfl⟩
  · obtain rfl : leaves' = [] := List.map_eq_nil_iff.mp hsame
    exact hempty rfl
  · rcases List.eq_nil_or_concat leaves' with rfl | ⟨before', last', rfl⟩
    · simp at hsame
    · simp only [List.concat_eq_append, List.map_append, List.map_cons, List.map_nil] at hsame
      obtain ⟨-, hlast⟩ := List.append_inj' hsame rfl
      intro hready
      simp only [List.concat_eq_append, List.foldl_append, List.foldl_cons, List.foldl_nil]
        at hready ⊢
      exact (List.cons.inj hlast).1.trans hready

theorem Faces.readEscape {rest : Text} (h : e.Faces s t s' s.cur t.cur stop)
    (hplace : s.cur.rest = e.text.drop s.cur.pos) (hmark : e.mark ≤ s.cur.pos)
    (hrest : s.cur.rest = '\\' :: rest)
    (hfirst : s'.frame = s.frame → s'.outer = s.outer → Ready s t)
    (hread : s.readEscape = .ok s') : e.Answers s' stop t.readEscape := by
  obtain ⟨⟨reading, after⟩, hreading, hstate⟩ := Read.bind_eq_ok.mp hread
  obtain ⟨n, -, rfl, hlength, halike⟩ := Escape.readsAlike_of_read hrest hreading
  have hcur : s'.cur = s.cur.advance n := by
    rw [← Except.ok.inj hstate]
    rfl
  obtain ⟨hmatches, rfl⟩ := h.shared n hcur
  cases halike with
  | fixed hsame hsign =>
    obtain ⟨reading', hreading', halike⟩ :=
      hsame t.frame.modes t.groups t.cur hmatches.agrees fun _ => hmatches
    have hreference := halike.reference
    have hleaves := halike.repeatable
    obtain rfl := Except.ok.inj hstate
    rw [ParserState.readEscape, hreading']
    show e.Answers _ _ (.ok _)
    rw [hplace] at hsign
    cases href : reading.reference with
    | none =>
      rw [href] at hreference hfirst
      simp only [hreference]
      refine .reads rfl ((h.mirrors.addLeaves _ _).moveTo _ _)
        (ready_addLeaves hleaves fun hempty => ?_)
      exact hfirst (by rw [hempty]; rfl) (by rw [hempty]; rfl)
    | some target =>
      rw [href] at hreference hfirst
      simp only [hreference]
      have hunsigned := hsign (by rw [href]; rfl)
      have htracks : e.Tracks ⟨target, s.cur.pos⟩ ⟨target, t.cur.pos⟩ :=
        Recount.tracks_of_unsigned hunsigned t.cur.pos
      refine .reads rfl (((h.mirrors.refer htracks).addLeaves _ _).moveTo _ _)
        (ready_addLeaves hleaves fun hempty => ?_)
      exact hfirst (by rw [hempty]; rfl) (by rw [hempty]; rfl)
  -- a reference that counts is resolved anew, from the groups of the other run
  | @counted written label hlabel hsame hsign =>
    rw [hsame _ _ _ (.refl hlength)] at hreading
    obtain ⟨reference, hreference, hpair⟩ := Read.bind_eq_ok.mp hreading
    obtain ⟨rfl, -⟩ := Prod.mk.inj (Except.ok.inj hpair)
    obtain rfl := Except.ok.inj hstate
    rw [hplace] at hsign
    rw [ParserState.readEscape, hsame _ _ _ hmatches.agrees, Escape.readOffset]
    rcases tracks_of_absoluteReference h.mirrors hmark hsign hreference t.cur.pos t.cur.pos with
      ⟨reference', hreference', htracks⟩ | ⟨⟨error, herror⟩, hmoves, hone⟩
    · rw [hreference']
      refine answers_addLeaf (h.mirrors.refer htracks) ?_
      rcases hlabel with rfl | rfl
      · rfl
      · rfl
    · rw [herror]
      exact .lost List.mem_cons_self hmoves hone

theorem Faces.readBracket {rest : Text} (h : e.Faces s t s' s.cur t.cur stop)
    (hrest : s.cur.rest = '[' :: rest) (hread : s.readBracket = .ok s') :
    e.Answers s' stop t.readBracket := by
  obtain ⟨⟨leaf, after⟩, hleaf, hstate⟩ := Read.bind_eq_ok.mp hread
  obtain rfl := Except.ok.inj hstate
  obtain ⟨n, -, rfl, -, hlabel, hsame⟩ := Bracket.read_agrees hrest hleaf
  obtain ⟨hagrees, rfl⟩ := h.agrees n rfl
  obtain ⟨leaf', hleaf', hlabel'⟩ := hsame t.frame.modes t.cur hagrees
  rw [ParserState.readBracket, hleaf']
  exact answers_addLeaf h.mirrors (hlabel'.trans hlabel.symm)

theorem Faces.readOne {label label' : Label} (h : e.Faces s t (s.readOne label) s.cur t.cur stop)
    (hlabel : label'.isRepeatable = label.isRepeatable) :
    e.Answers (s.readOne label) stop (.ok (t.readOne label')) := by
  obtain ⟨-, rfl⟩ := h.agrees 1 rfl
  exact answers_addLeaf h.mirrors hlabel

/-! ## Section 7: One step -/

/-- The same is skipped in both runs. -/
theorem Faces.skipped? {c : Char} {rest rest' : Text} (h : e.Faces s t s' s.cur t.cur stop)
    (hrest : s.cur.rest = c :: rest) (hrest' : t.cur.rest = c :: rest') :
    (s.skipped? = none → t.skipped? = none) ∧
      ∀ after, s.skipped? = some after → s'.cur = after → t.skipped? = some stop := by
  have hverbose := h.mirrors.frame.verbose
  refine ⟨fun hnone => ?_, fun after hafter hcur => ?_⟩
  · simp only [ParserState.skipped?, hrest, hrest', hverbose] at hnone ⊢
    split_ifs at hnone ⊢ <;> rfl
  · subst hcur
    simp only [ParserState.skipped?, hrest, hrest', hverbose] at hafter ⊢
    split_ifs at hafter with hoff hspace hhash
    · rw [if_neg hoff, if_pos hspace]
      obtain ⟨-, rfl⟩ := h.agrees 1 (Option.some.inj hafter).symm
      rfl
    · rw [if_neg hoff, if_neg hspace, if_pos hhash]
      split at hafter
      next found after hfound =>
        obtain ⟨hadvance, -, hcut⟩ := Cursor.upTo?_cut hfound
        obtain ⟨hagrees, rfl⟩ := h.agrees _ ((Option.some.inj hafter).symm.trans hadvance)
        rw [hcut t.cur hagrees]
      next hfound =>
        -- the comment is not ended in either text
        obtain ⟨hmatches, rfl⟩ := h.shared _ (Option.some.inj hafter).symm
        rw [← hrest] at hmatches
        have hsame : t.cur.rest = s.cur.rest := hmatches.rest_eq
        have hfound' : t.cur.upTo? '\n' = none := by
          unfold Cursor.upTo? at hfound ⊢
          dsimp only at hfound ⊢
          rw [hsame]
          split at hfound
          next => simp at hfound
          next hshort => rw [if_neg hshort]
        rw [hfound', ← hrest', hsame, hrest]

theorem Faces.readAt {c : Char} {rest : Text} (h : e.Faces s t s' s.cur t.cur stop)
    (hplace : s.cur.rest = e.text.drop s.cur.pos) (hmark : e.mark ≤ s.cur.pos)
    (hrest : s.cur.rest = c :: rest) (hagrees : s.cur.Agrees t.cur 1)
    (hbelow : e.below <:+ s'.outer) (hnormal : t.IsNormal)
    (hfirst : s'.frame = s.frame ∧ s'.outer = s.outer ∨ s'.frame.quantified = true → Ready s t)
    (hread : s.readAt c = .ok s') : e.Answers s' stop (t.readAt c) := by
  have hpass : s'.frame = s.frame → s'.outer = s.outer → Ready s t :=
    fun hframe houter => hfirst (.inl ⟨hframe, houter⟩)
  obtain ⟨rest', hrest'⟩ := hagrees.exists_cons hrest Nat.one_pos
  have hreads := ParserState.readsAt hrest
  generalize s.readAt c = result at hreads hread
  -- one case for each reader of the parser, told apart by the first character
  cases hreads with
  | opening => exact h.readOpening hplace hmark hrest hpass hread
  | closing =>
    refine h.readClosing ?_ hbelow hnormal hread
    obtain ⟨frame, outer, node, count, -, -, rfl⟩ := ParserState.exists_of_readClosing hread
    rfl
  | bar =>
    obtain rfl := Except.ok.inj hread
    obtain ⟨-, rfl⟩ := h.agrees 1 rfl
    refine .reads rfl ((h.mirrors.withFrames h.mirrors.frame.nextBranch).moveTo _ _) ?_
    exact fun hready => Bool.noConfusion hready
  | unread => simp at hread
  | quantifier hc hquantifier =>
    have hquantified := ParserState.quantified_of_applyQuantifier hread
    obtain ⟨after', hquantifier', hanswers⟩ :=
      h.applyQuantifier hquantifier (hfirst (.inr hquantified)) hread
    rw [ParserState.readAt_quantifier hc hquantifier']
    exact hanswers
  | bracket =>
    rw [ParserState.readAt_bracket hrest']
    exact h.readBracket hrest hread
  | escape =>
    rw [ParserState.readAt_escape hrest']
    exact h.readEscape hplace hmark hrest hpass hread
  | single hc hquantifier =>
    obtain rfl := Except.ok.inj hread
    rw [ParserState.readAt_single hc (Bounds.read?_eq_none_of_agrees hagrees hquantifier)]
    refine h.readOne ?_
    unfold Modes.single
    split_ifs <;> rfl

/-- Where the first run takes a step, the second one begins with the same
    character and answers. -/
theorem Mirrors.answers {n : Nat} (h : e.Mirrors s t) (hnext : ParserState.Next s s')
    (hcur : s'.cur = s.cur.advance n) (hmatches : s.cur.Matches t.cur n)
    (hplace : s.cur.rest = e.text.drop s.cur.pos) (hmark : e.mark ≤ s.cur.pos)
    (hbelow : e.below <:+ s'.outer) (hnormal : t.IsNormal)
    (hfirst : s'.frame = s.frame ∧ s'.outer = s.outer ∨ s'.frame.quantified = true → Ready s t) :
    ∃ c rest, t.cur.rest = c :: rest ∧ e.Answers s' (t.cur.advance n) (t.step c) := by
  have hpos : 0 < n := by
    obtain ⟨⟨m, -, hm⟩, hlt⟩ := hnext.move.passes
    have hpos := congrArg Cursor.pos hcur
    simp only [Cursor.advance_pos] at hpos
    omega
  obtain ⟨c, rest, hrest, hstep⟩ := hnext
  obtain ⟨rest', hrest'⟩ := hmatches.agrees.exists_cons hrest hpos
  refine ⟨c, rest', hrest', ?_⟩
  have hfaces : e.Faces s t s' s.cur t.cur (t.cur.advance n) := by
    refine ⟨h, fun m hm => ?_⟩
    have hpos := congrArg Cursor.pos (hm.symm.trans hcur)
    simp only [Cursor.advance_pos, Nat.add_left_cancel_iff] at hpos
    subst hpos
    exact ⟨hmatches, rfl⟩
  -- verbose mode skips the same characters in both runs
  obtain ⟨hkeep, hskip⟩ := hfaces.skipped? hrest hrest'
  unfold ParserState.step at hstep ⊢
  cases hskipped : s.skipped? with
  | some after =>
    rw [hskipped] at hstep
    obtain rfl := Except.ok.inj hstep
    rw [hskip after hskipped rfl]
    exact .reads rfl (h.moveTo _ _) (hfirst (.inl ⟨rfl, rfl⟩))
  | none =>
    rw [hskipped] at hstep
    rw [hkeep hskipped]
    exact hfaces.readAt hplace hmark hrest (hmatches.agrees.mono hpos) hbelow hnormal hfirst hstep

/-! ## Section 8: Runs -/

/-- How the second run goes on from `t` while the first one comes to `s'` in
    `n` characters: it comes as far, or to a reference that is lost. -/
inductive Ends (e : Framing) (s' t : ParserState) (n : Nat) : Prop
  | arrives {t' : ParserState} (hruns : ParserState.RunsAbove e.below' t t')
      (hcur : t'.cur = t.cur.advance n) (hmirrors : e.Mirrors s' t') (hready : Ready s' t') :
      Ends e s' t n
  | lost {r : Reference} {u : ParserState} {c : Char} {rest : Text} {error : ReadError}
      (hr : r ∈ s'.references) (hmoves : e.Moves r.position)
      (htarget : r.target = Nat.toDigits 10 1) (hruns : t.RunsTo u) (hrest : u.cur.rest = c :: rest)
      (hstep : u.step c = .error error) : Ends e s' t n

/-- One step is mirrored by one step.  It need not be known that a quantifier
    may follow unless the step passes something over or puts one. -/
theorem Mirrors.step {n : Nat} (h : e.Mirrors s t) (hnext : ParserState.Next s s')
    (hs : (ParserState.initial e.text).RunsTo s) (hcur : s'.cur = s.cur.advance n)
    (hmatches : s.cur.Matches t.cur n) (hmark : e.mark ≤ s.cur.pos) (hbelow : e.below <:+ s'.outer)
    (hnormal : t.IsNormal)
    (hfirst : s'.frame = s.frame ∧ s'.outer = s.outer ∨ s'.frame.quantified = true → Ready s t) :
    e.Ends s' t n := by
  have hplace := (ParserState.RemembersTargets.of_runsTo hs).place
  obtain ⟨c, rest, hrest, hanswers⟩ :=
    h.answers hnext hcur hmatches hplace hmark hbelow hnormal hfirst
  generalize hstep : t.step c = answer at hanswers
  cases hanswers with
  | @reads t' hcur' hmirrors hready =>
    obtain ⟨inner, inner', -, houter, -⟩ := hmirrors.outer
    refine .arrives (.single ⟨⟨c, rest, hrest, hstep⟩, ?_⟩) hcur' hmirrors hready
    exact ⟨inner', houter.symm⟩
  | lost hr hmoves htarget => exact .lost hr hmoves htarget .refl hrest hstep

/-- Where the second run has come as far, it goes on. -/
theorem Ends.trans {u : ParserState} {m n : Nat} (h : e.Ends u t m) (hruns : u.RunsTo s')
    (hmore : ∀ t', t'.cur = t.cur.advance m → ParserState.RunsAbove e.below' t t' →
      e.Mirrors u t' → Ready u t' → e.Ends s' t' n) : e.Ends s' t (m + n) := by
  cases h with
  | @arrives t' hruns' hcur hmirrors hready =>
    cases hmore t' hcur hruns' hmirrors hready with
    | arrives hruns'' hcur' hmirrors' hready' =>
      refine .arrives (hruns'.trans hruns'') ?_ hmirrors' hready'
      rw [hcur', hcur, Cursor.advance_advance]
    | lost hr hmoves htarget hruns'' hrest hstep =>
      exact .lost hr hmoves htarget (hruns'.runsTo.trans hruns'') hrest hstep
  | lost hr hmoves htarget hruns' hrest hstep =>
    exact .lost (hruns.references_subset hr) hmoves htarget hruns' hrest hstep

/-- A run over a text that both have is mirrored step by step. -/
theorem Mirrors.run {n : Nat} (h : e.Mirrors s t) (hready : Ready s t)
    (hruns : ParserState.RunsAbove e.below s s') (hs : (ParserState.initial e.text).RunsTo s)
    (hcur : s'.cur = s.cur.advance n) (hmatches : s.cur.Matches t.cur n)
    (hmark : e.mark ≤ s.cur.pos) (hnormal : t.IsNormal) : e.Ends s' t n := by
  induction hruns generalizing n with
  | refl =>
    have hpos := congrArg Cursor.pos hcur
    simp only [Cursor.advance_pos] at hpos
    obtain rfl : n = 0 := by omega
    exact .arrives .refl (Cursor.advance_zero _).symm h hready
  | @tail u s' hruns hstep ih =>
    have hu := hs.trans (ParserState.RunsAbove.runsTo hruns)
    obtain ⟨m, -, hm⟩ := ParserState.RunsTo.reaches (ParserState.RunsAbove.runsTo hruns)
    obtain ⟨k, -, hk⟩ := hstep.1.move.passes.reaches
    have hpos := congrArg Cursor.pos hcur
    simp only [hk, hm, Cursor.advance_pos] at hpos
    -- the last step reads what the steps before it have left
    obtain rfl : n = m + k := by omega
    refine (ih hm (hmatches.mono (Nat.le_add_right m k))).trans (.single hstep.1)
      fun t' hcur' hruns' hmirrors hready' => ?_
    refine hmirrors.step hstep.1 hu hk ?_ ?_ hstep.2 ?_ fun _ => hready'
    · rw [hm, hcur']
      exact hmatches.advance
    · rw [hm, Cursor.advance_pos]
      omega
    · exact hruns'.runsTo.invariant ParserState.IsNormal.move hnormal

end Framing

end RegexInsight
