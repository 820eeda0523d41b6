import Mathlib
import RegexInsight.Proofs.Pattern.Mirror

/-! # Keeping an excerpt

    A piece of a pattern is replaced by an atomic group around an excerpt of
    it.  The pattern that results is read like the old one: up to the
    piece, then in the atomic group over the excerpt, then behind the
    piece.  If the piece was a capturing group, one group is missing from
    there on. -/

namespace RegexInsight

/-! ## Section 1: Pairs of characters in a piece -/

theorem HasPair.of_drop {a b : Char} {text : Text} {i j : Nat} (h : HasPair a b (text.drop j))
    (hle : i ≤ j) : HasPair a b (text.drop i) := by
  have hsplit : text.drop i = (text.drop i).take (j - i) ++ text.drop j := by
    have hdrop := List.take_append_drop (j - i) (text.drop i)
    rw [List.drop_drop, Nat.add_sub_cancel' hle] at hdrop
    exact hdrop.symm
  rw [hsplit]
  exact h.append_left _

theorem HasPair.of_slice {a b : Char} {text : Text} {i j k : Nat}
    (h : HasPair a b (slice text j k)) (hle : i ≤ j) : HasPair a b (text.drop i) := by
  have hwhole : HasPair a b (text.drop j) := by
    rw [← List.take_append_drop (k - j) (text.drop j)]
    exact h.append_right _
  exact hwhole.of_drop hle

/-! ## Section 2: Dropped groups -/

/-- The reference still leads to some group if the group that opens at `mark`
    is dropped, where there are `groups` of them.  A signed one behind the mark
    is counted anew and leads to the group before, so that it must not lead to
    the first; any other must not lead to the last. -/
def Reference.Survives (r : Reference) (text : Text) (mark groups : Nat) : Prop :=
  Numeral.read r.target ≠
    .ok (if mark ≤ r.position ∧ showsSign (text.drop r.position) = true then 1 else groups)

instance (r : Reference) (text : Text) (mark groups : Nat) :
    Decidable (r.Survives text mark groups) :=
  inferInstanceAs (Decidable (_ ≠ _))

namespace ParserState

theorem isKnown_toDigits {s : ParserState} {number : Nat} :
    s.IsKnown (Nat.toDigits 10 number) ↔
      Numeral.read (Nat.toDigits 10 number) = .ok number ∧ 1 ≤ number ∧ number ≤ s.groups := by
  rw [IsKnown, if_pos (Numeral.isDigitText_toDigits number)]
  constructor
  · intro hknown
    obtain ⟨found, hread, hrange⟩ := hknown
    obtain ⟨-, -, -, hvalue⟩ := Numeral.read_eq_ok_iff.mp hread
    rw [Numeral.value_toDigits] at hvalue
    subst hvalue
    exact ⟨hread, hrange⟩
  · intro hread
    exact ⟨number, hread⟩

/-- Of the numbers that could be read, smaller ones can be read as well. -/
theorem read_toDigits_of_succ {number : Nat}
    (h : Numeral.read (Nat.toDigits 10 (number + 1)) = .ok (number + 1)) :
    Numeral.read (Nat.toDigits 10 number) = .ok number := by
  obtain ⟨-, -, hlength, -⟩ := Numeral.read_eq_ok_iff.mp h
  have hwrite := Numeral.write_eq_ok_iff.mpr ⟨rfl, hlength⟩
  have hnumber : Read.numeralOf (number + 1) = .ok (Nat.toDigits 10 (number + 1)) := by
    rw [Read.numeralOf, hwrite]
  have hsmaller := (Escape.numeralOf_of_succ hnumber).2
  unfold Read.numeralOf at hsmaller
  split at hsmaller
  next htext =>
    obtain rfl := Except.ok.inj hsmaller
    exact Numeral.read_of_write htext
  next => simp at hsmaller

/-- A target stays known in a state with one group less and the same names,
    unless it is the number of the last group. -/
theorem isKnown_iff_of_missing {s t : ParserState} {target : Text}
    (hgroups : s.groups = t.groups + 1)
    (hnames : t.names.map Prod.fst = s.names.map Prod.fst) (hknown : s.IsKnown target) :
    t.IsKnown target ↔ Numeral.read target ≠ .ok s.groups := by
  unfold IsKnown at hknown ⊢
  split at hknown
  next hdigits =>
    obtain ⟨number, hread, hlower, hupper⟩ := hknown
    rw [if_pos hdigits, hread]
    constructor
    · intro hfound
      obtain ⟨found, hfound, -, hle⟩ := hfound
      obtain rfl := Except.ok.inj hfound
      intro hlast
      have heq := Except.ok.inj hlast
      omega
    · intro hlast
      refine ⟨number, rfl, hlower, ?_⟩
      have hne : number ≠ s.groups := fun heq => hlast (congrArg Except.ok heq)
      omega
  next hdigits =>
    rw [if_neg hdigits]
    refine iff_of_true ?_ fun hread => hdigits ?_
    · -- the name is still there
      obtain ⟨entry, hentry, rfl⟩ := hknown
      have hmem : entry.1 ∈ t.names.map Prod.fst := by
        rw [hnames]
        exact List.mem_map_of_mem hentry
      exact List.mem_map.mp hmem
    · obtain ⟨hsome, hall, -, -⟩ := Numeral.read_eq_ok_iff.mp hread
      simp only [isDigitText, Bool.and_eq_true, Bool.not_eq_true', List.isEmpty_eq_false_iff]
      refine ⟨hsome, List.all_eq_true.mpr fun c hc => ?_⟩
      exact isDigitChar_of_isDecimal (List.all_eq_true.mp hall c hc)

theorem isKnown_congr {s t : ParserState} {target : Text} (hgroups : s.groups = t.groups)
    (hnames : t.names.map Prod.fst = s.names.map Prod.fst) :
    t.IsKnown target ↔ s.IsKnown target := by
  unfold IsKnown
  rw [hgroups]
  split
  next => rfl
  next =>
    have hmem : ∀ names : List (Text × Nat),
        (∃ entry ∈ names, entry.1 = target) ↔ target ∈ names.map Prod.fst := by
      intro names
      exact List.mem_map.symm
    rw [hmem, hmem, hnames]

/-- A reference of the mirrored run is known unless it does not survive that
    a group is missing. -/
theorem isKnown_iff_of_tracks {s t : ParserState} {e : Recount} {r r' : Reference}
    (htracks : e.Tracks r r') (hgroups : s.groups = t.groups + e.missing.toNat)
    (hnames : t.names.map Prod.fst = s.names.map Prod.fst) (hknown : s.IsKnown r.target) :
    t.IsKnown r'.target ↔ (e.missing = true → r.Survives e.text e.mark s.groups) := by
  cases htracks with
  | stays hfixed htarget =>
    rw [htarget]
    cases hmissing : e.missing with
    | false =>
      rw [hmissing] at hgroups
      exact iff_of_true ((isKnown_congr hgroups hnames).mpr hknown) nofun
    | true =>
      rw [hmissing] at hgroups
      -- it was not counted anew, so that it survives unless it is the last number
      have hcounted : ¬ (e.mark ≤ r.position ∧ showsSign (e.text.drop r.position) = true) :=
        fun hmoves => hfixed ⟨hmissing, hmoves⟩
      rw [Reference.Survives, if_neg hcounted, isKnown_iff_of_missing hgroups hnames hknown]
      exact ⟨fun h _ => h, fun h => h rfl⟩
  | @moves number hmoves hpos htarget htarget' =>
    rw [htarget, isKnown_toDigits] at hknown
    obtain ⟨hread, -, hle⟩ := hknown
    rw [hmoves.1] at hgroups
    -- counted anew, it means the group before, and there is one group less
    have hle' : number ≤ t.groups := by
      rw [hgroups] at hle
      exact Nat.le_of_succ_le_succ hle
    rw [htarget', isKnown_toDigits]
    refine iff_of_true ⟨read_toDigits_of_succ hread, hpos, hle'⟩ fun _ => ?_
    rw [Reference.Survives, if_pos hmoves.2, htarget, hread]
    intro hone
    have heq := Except.ok.inj hone
    omega

/-- A signed reference to the first group does not survive that a group before
    it is missing. -/
theorem not_survives_of_moves {e : Recount} {r : Reference} {groups : Nat}
    (hmoves : e.Moves r.position) (htarget : r.target = Nat.toDigits 10 1) :
    ¬ r.Survives e.text e.mark groups := by
  intro hsurvives
  rw [Reference.Survives, if_pos hmoves.2, htarget] at hsurvives
  exact hsurvives (Numeral.read_of_write (Numeral.write_eq_ok_iff.mpr ⟨rfl, by decide⟩))

/-- What holds of the second of two things exactly when something holds of
    the first holds of all second ones likewise. -/
theorem forall_mem_iff_of_forall₂ {α β : Type} {P : α → Prop} {Q : β → Prop} {xs : List α}
    {ys : List β} (h : List.Forall₂ (fun x y => Q y ↔ P x) xs ys) :
    (∀ y ∈ ys, Q y) ↔ ∀ x ∈ xs, P x := by
  induction h with
  | nil => exact iff_of_true nofun nofun
  | cons hfirst _ ih => rw [List.forall_mem_cons, List.forall_mem_cons, hfirst, ih]

/-- If a run comes to the end of a text with every frame closed, the text is
    accepted exactly when all references are known. -/
theorem accepted_iff_of_closed {text : Text} {last : ParserState}
    (hruns : (initial text).RunsTo last) (hend : last.cur.rest = []) (houter : last.outer = []) :
    (∃ p, Pattern.parse text = .ok p) ↔ ∀ r ∈ last.references, last.IsKnown r.target := by
  rw [← checkReferences_eq_ok_iff]
  constructor
  · intro hparse
    obtain ⟨p, hparse⟩ := hparse
    obtain ⟨last', root, hruns', hend', hfinish, -⟩ := Pattern.parse_eq_ok_iff.mp hparse
    obtain rfl : last = last' := by
      have hrun := run_of_runsTo hruns hend (Nat.le_refl _)
      rw [run_of_runsTo hruns' hend' (Nat.le_refl _)] at hrun
      exact (Except.ok.inj hrun).symm
    exact (finish_eq_ok_iff.mp hfinish).2.2
  · intro hcheck
    have hroot := (IsNormal.of_runsTo hruns).root_of_outer houter
    have hclose : ∃ root count, last.frame.close last.count last.cur.pos = .ok (root, count) :=
      ⟨_, _, last.frame.close_of_root hroot _ _⟩
    obtain ⟨root, hclose⟩ := hclose
    have hfinish := finish_eq_ok_iff.mpr ⟨houter, hclose, hcheck⟩
    exact ⟨_, Pattern.parse_eq_ok_iff.mpr ⟨last, root, hruns, hend, hfinish, rfl⟩⟩

/-- If a run comes to the end of a text as another one did that was finished
    well, the text is accepted exactly when all references survive. -/
theorem accepted_iff_of_mirrors {e : Recount} {text : Text} {last last' : ParserState} {root : Node}
    (hruns : (initial text).RunsTo last') (hend : last'.cur.rest = [])
    (hmirrors : Framing.Mirrors ⟨e, [], []⟩ last last') (hfinish : last.finish = .ok root) :
    (∃ q, Pattern.parse text = .ok q) ↔
      (e.missing = true → ∀ r ∈ last.references, r.Survives e.text e.mark last.groups) := by
  obtain ⟨houter, -, hcheck⟩ := finish_eq_ok_iff.mp hfinish
  have hknown := checkReferences_eq_ok_iff.mp hcheck
  have houter' : last'.outer = [] := by
    obtain ⟨inner, inner', hinner, hinner', halike⟩ := hmirrors.outer
    rw [houter] at hinner
    obtain ⟨rfl, -⟩ := List.append_eq_nil_iff.mp hinner.symm
    obtain rfl := List.forall₂_nil_left_iff.mp halike
    exact hinner'
  -- nothing is open, so that all depends on the references
  rw [accepted_iff_of_closed hruns hend houter']
  have hall : List.Forall₂ (fun r r' => last'.IsKnown r'.target ↔
      (e.missing = true → r.Survives e.text e.mark last.groups)) last.references
      last'.references := by
    refine ((List.forall₂_and_left _ _).mpr ⟨hknown, hmirrors.references⟩).imp ?_
    intro r r' hboth
    exact isKnown_iff_of_tracks hboth.2 hmirrors.groups hmirrors.names hboth.1
  rw [forall_mem_iff_of_forall₂ hall]
  constructor
  · intro hall hmissing r hr
    exact hall r hr hmissing
  · intro hall r hr hmissing
    exact hall hmissing r hr

/-! ## Section 3: Excerpts -/

/-- The text in which the piece from `a` to `d` is replaced by an atomic group
    around the excerpt from `b` to `c`. -/
def excerptText (text : Text) (a b c d : Nat) : Text :=
  text.take a ++ ['(', '?', '>'] ++ slice text b c ++ [')'] ++ text.drop d

/-- The piece of a text that is read from `a` to `d` can be replaced by the
    excerpt of it that is read from `b` to `c`: up to the excerpt the piece
    opens one group if one is `missing`, and none otherwise, and behind the
    excerpt it only goes back to where it began. -/
structure Excerpt (text : Text) (missing : Bool) (a b c d : ParserState) : Prop where
  reached : (initial text).RunsTo a
  before : a.RunsTo b
  verbose : b.frame.modes.verbose = a.frame.modes.verbose
  groups : b.groups = a.groups + missing.toNat
  names : b.names = a.names
  references : b.references = a.references
  inside : ∃ u, Next b u ∧ ¬ (u.frame = b.frame ∧ u.outer = b.outer) ∧
    u.frame.quantified = false ∧ b.outer <:+ u.outer ∧ RunsAbove b.outer u c
  level : c.outer = b.outer
  after : c.RunsTo d
  frame : d.frame.modes.verbose = a.frame.modes.verbose ∧ d.frame.opener = a.frame.opener ∧
    d.frame.finished = a.frame.finished
  outer : d.outer = a.outer
  kept : d.groups = c.groups ∧ d.names = c.names ∧ d.references = c.references
  more : c.cur.rest ≠ []

variable {text : Text} {missing : Bool} {a b c d s s' t last : ParserState}

theorem RunsTo.advance_sub (h : s.RunsTo s') : s'.cur = s.cur.advance (s'.cur.pos - s.cur.pos) := by
  obtain ⟨n, -, hn⟩ := h.reaches
  have hpos := congrArg Cursor.pos hn
  rw [Cursor.advance_pos] at hpos
  rw [hpos, Nat.add_sub_cancel_left]
  exact hn

theorem RunsTo.pos_le_length (h : (initial text).RunsTo s) : s.cur.pos ≤ text.length := by
  obtain ⟨n, hn, hcur⟩ := h.reaches
  rw [hcur]
  show 0 + n ≤ text.length
  rw [Nat.zero_add]
  exact hn

/-- A move remembers at most a reference at the cursor. -/
theorem Move.references_eq (h : Move s s') :
    s'.references = s.references ∨
      ∃ target, s'.references = ⟨target, s.cur.pos⟩ :: s.references := by
  cases h with
  | plain => exact .inl (openers_foldl_addLeaf _).2
  | backreference => exact .inr ⟨_, rfl⟩
  | recursion => exact .inr ⟨_, rfl⟩
  | enterConditional => exact .inr ⟨_, rfl⟩
  | _ => exact .inl rfl

/-- All references stand before the cursor. -/
theorem position_lt_of_runsTo (h : (initial text).RunsTo s) :
    ∀ r ∈ s.references, r.position < s.cur.pos := by
  refine h.invariant (P := fun t => ∀ r ∈ t.references, r.position < t.cur.pos)
    (fun hbefore hmove r hr => ?_) nofun
  have hlt := hmove.passes.2
  rcases hmove.references_eq with hsame | ⟨target, hnew⟩
  · exact Nat.lt_trans (hbefore r (hsame ▸ hr)) hlt
  · rw [hnew] at hr
    rcases List.mem_cons.mp hr with rfl | hold
    · exact hlt
    · exact Nat.lt_trans (hbefore r hold) hlt

namespace Excerpt

/-- The places of an excerpt are in order, and there is some text in it. -/
theorem pos_le (h : Excerpt text missing a b c d) :
    a.cur.pos ≤ b.cur.pos ∧ b.cur.pos < c.cur.pos ∧ c.cur.pos ≤ d.cur.pos := by
  obtain ⟨u, hnext, -, -, -, hinside⟩ := h.inside
  have hfirst := hnext.move.passes.2
  have hrest := hinside.runsTo.reaches.pos_le
  exact ⟨h.before.reaches.pos_le, Nat.lt_of_lt_of_le hfirst hrest, h.after.reaches.pos_le⟩

theorem runsTo_b (h : Excerpt text missing a b c d) : (initial text).RunsTo b :=
  h.reached.trans h.before

theorem runsTo_c (h : Excerpt text missing a b c d) : (initial text).RunsTo c := by
  obtain ⟨u, hnext, -, -, -, hinside⟩ := h.inside
  exact (h.runsTo_b.tail hnext).trans hinside.runsTo

theorem runsTo_d (h : Excerpt text missing a b c d) : (initial text).RunsTo d :=
  h.runsTo_c.trans h.after

variable {text' : Text}

/-- The beginning stays, and behind it the piece is replaced. -/
theorem split_excerptText (h : Excerpt text missing a b c d)
    (htext : text' = excerptText text a.cur.pos b.cur.pos c.cur.pos d.cur.pos) :
    text' = text.take a.cur.pos ++ ('(' :: '?' :: '>' ::
        (slice text b.cur.pos c.cur.pos ++ (')' :: text.drop d.cur.pos))) ∧
      (text.take a.cur.pos).length = a.cur.pos := by
  constructor
  · simp [htext, excerptText]
  · rw [List.length_take]
    exact Nat.min_eq_left h.reached.pos_le_length

/-- What is put in place of the piece has no end of a POSIX class that the
    text from the piece on does not have. -/
theorem hasPair_of_tail (h : Excerpt text missing a b c d) {i : Nat} (hle : i ≤ b.cur.pos)
    (hpair : HasPair ':' ']' (slice text b.cur.pos c.cur.pos ++ (')' :: text.drop d.cur.pos))) :
    HasPair ':' ']' (text.drop i) := by
  have hends := h.pos_le
  rcases hasPair_append (by simp) hpair with hexcerpt | hbehind
  · exact hexcerpt.of_slice hle
  · exact (hasPair_cons hbehind (by decide)).of_drop (by omega)

/-! ## Section 4: The phases of the new run -/

/-- Up to the piece the new text is read like the old one. -/
theorem exists_before (h : Excerpt text missing a b c d)
    (htext : text' = excerptText text a.cur.pos b.cur.pos c.cur.pos d.cur.pos) :
    ∃ t, (initial text').RunsTo t ∧
      t.cur.rest = '(' :: '?' :: '>' ::
        (slice text b.cur.pos c.cur.pos ++ (')' :: text.drop d.cur.pos)) ∧
      Framing.Mirrors ⟨⟨text, 0, false⟩, [], []⟩ a t := by
  obtain ⟨hsplit, hlength⟩ := h.split_excerptText htext
  have hends := h.pos_le
  have hstart := Framing.mirrors_initial text text'
  have hcur : a.cur = (initial text).cur.advance a.cur.pos := h.reached.advance_sub
  have hmatches : (initial text).cur.Matches (initial text').cur a.cur.pos := by
    refine ⟨⟨text.take a.cur.pos, text.drop a.cur.pos, _, (List.take_append_drop _ _).symm, hsplit,
      hlength.ge, ?head, ?pair⟩, ?ends⟩
    case head =>
      intro c hc
      exact .inl (Option.some.inj hc).symm
    case ends =>
      -- the excerpt is not at the end of the text
      intro hlong
      have hle := h.runsTo_c.pos_le_length
      have hshort : text.length ≤ a.cur.pos := hlong
      omega
    case pair =>
      intro hpair
      have hexcerpt := hasPair_cons (hasPair_cons (hasPair_cons hpair (by decide)) (by decide))
        (by decide)
      exact h.hasPair_of_tail hends.1 hexcerpt
  cases hstart.run nofun h.reached.above_nil .refl hcur hmatches (Nat.zero_le _) (.initial _) with
  | @arrives t hruns hcur' hmirrors hready =>
    refine ⟨t, hruns.runsTo, ?_, hmirrors⟩
    rw [hcur', hsplit]
    show List.drop a.cur.pos (text.take a.cur.pos ++ _) = _
    rw [List.drop_append_of_le_length hlength.ge, List.drop_eq_nil_of_le hlength.le,
      List.nil_append]
  | lost _ hmoves => exact Bool.noConfusion hmoves.1

/-- The atomic group is opened. -/
theorem next_atomic {tail : Text} (hrest : t.cur.rest = '(' :: '?' :: '>' :: tail) :
    Next t (t.enter (.group .atomic) t.cur.pos t.frame.modes (t.cur.advance 3)) := by
  refine ⟨'(', _, hrest, ?_⟩
  rw [step_of_not_skipped (skipped?_eq_none hrest (by decide +kernel) (by decide)),
    readAt_extension hrest]
  have hmark : (t.cur.advance 2).rest = '>' :: tail := by
    rw [Cursor.advance_rest, hrest]
    rfl
  simp only [readExtension, hmark, Cursor.advance_advance]

/-- An atomic group is closed. -/
theorem exists_next_closing {tail : Text} {frame : Frame} {outer : List Frame}
    (hrest : t.cur.rest = ')' :: tail) (houter : t.outer = frame :: outer)
    (hopener : t.frame.opener = .group .atomic) :
    ∃ node count, node.label.isRepeatable = true ∧
      Next t { t with
        cur := t.cur.advance 1, frame := frame.push node, outer := outer, count := count } := by
  obtain ⟨node, count, hclose, hlabel, -⟩ :=
    t.frame.exists_close_of_group hopener t.count (t.cur.advance 1).pos
  exact ⟨node, count, hlabel ▸ rfl, next_closing hrest houter hclose⟩

/-- What stays the same over the excerpt: the new run is in the atomic group,
    and may miss a group. -/
def within (text : Text) (missing : Bool) (a b t : ParserState) : Framing :=
  ⟨⟨text, a.cur.pos, missing⟩, b.outer, t.frame :: t.outer⟩

/-- At the excerpt the two runs mirror each other again. -/
theorem mirrors_within (h : Excerpt text missing a b c d)
    (hmirrors : Framing.Mirrors ⟨⟨text, 0, false⟩, [], []⟩ a t) :
    (within text missing a b t).Mirrors b
      (t.enter (.group .atomic) t.cur.pos t.frame.modes (t.cur.advance 3)) where
  frame := ⟨hmirrors.frame.verbose.trans h.verbose.symm, nofun⟩
  outer := ⟨[], [], rfl, rfl, .nil⟩
  groups := by
    rw [h.groups, hmirrors.groups]
    rfl
  names := by
    rw [h.names]
    exact hmirrors.names
  references := by
    rw [h.references]
    have hplaced : ∀ r ∈ a.references, r.position < a.cur.pos := position_lt_of_runsTo h.reached
    refine ((List.forall₂_and_left _ _).mpr ⟨hplaced, hmirrors.references⟩).imp ?_
    intro r r' hboth
    obtain ⟨hlt, htracks⟩ := hboth
    cases htracks with
    | stays _ htarget =>
      -- the references so far stand before the piece
      refine .stays (fun hmoves => ?_) htarget
      exact absurd hmoves.2.1 (Nat.not_le.mpr hlt)
    | moves hmoves => exact Bool.noConfusion hmoves.1

/-- The excerpt is read in the atomic group. -/
theorem ends_within (h : Excerpt text missing a b c d)
    (hmirrors : Framing.Mirrors ⟨⟨text, 0, false⟩, [], []⟩ a t) (hnormal : t.IsNormal)
    (hrest : t.cur.rest = '(' :: '?' :: '>' ::
      (slice text b.cur.pos c.cur.pos ++ (')' :: text.drop d.cur.pos))) :
    (within text missing a b t).Ends c
      (t.enter (.group .atomic) t.cur.pos t.frame.modes (t.cur.advance 3))
      (c.cur.pos - b.cur.pos) := by
  have hends := h.pos_le
  have hstart := h.mirrors_within hmirrors
  have hnormal' : (t.enter (.group .atomic) t.cur.pos t.frame.modes (t.cur.advance 3)).IsNormal :=
    hnormal.enter trivial nofun
  -- the texts have the excerpt in common
  have hlength : (slice text b.cur.pos c.cur.pos).length = c.cur.pos - b.cur.pos := by
    have hle := h.runsTo_c.pos_le_length
    rw [slice, List.length_take, List.length_drop]
    omega
  have hplace := (RemembersTargets.of_runsTo h.runsTo_b).place
  have hmatches : b.cur.Matches (t.cur.advance 3) (c.cur.pos - b.cur.pos) := by
    refine ⟨⟨slice text b.cur.pos c.cur.pos, text.drop c.cur.pos, ')' :: text.drop d.cur.pos, ?_, ?_,
      hlength.ge, ?head, ?pair⟩, ?ends⟩
    · have hsplit := List.take_append_drop (c.cur.pos - b.cur.pos) (text.drop b.cur.pos)
      rw [List.drop_drop, Nat.add_sub_cancel' hends.2.1.le] at hsplit
      rw [hplace, ← hsplit]
      rfl
    · rw [Cursor.advance_rest, hrest]
      rfl
    case head =>
      intro x hx
      exact .inr (Option.some.inj hx).symm
    case ends =>
      -- behind the excerpt there is more text
      intro hlong
      have hmore := List.length_pos_of_ne_nil h.more
      rw [(RemembersTargets.of_runsTo h.runsTo_c).place, List.length_drop] at hmore
      rw [hplace, List.length_drop] at hlong
      omega
    case pair =>
      intro hpair
      exact (hasPair_cons hpair (by decide)).of_drop hends.2.2
  obtain ⟨u, hnext, hchanges, hquantified, hbelow, hinside⟩ := h.inside
  have hu := h.runsTo_b.tail hnext
  have hfirst := hnext.move.passes.2
  have hrest' := hinside.runsTo.reaches.pos_le
  have hsum : c.cur.pos - b.cur.pos = (u.cur.pos - b.cur.pos) + (c.cur.pos - u.cur.pos) := by
    omega
  rw [hsum] at hmatches ⊢
  have hstep : b.RunsTo u := .single hnext
  refine (hstart.step hnext h.runsTo_b hstep.advance_sub (hmatches.mono (Nat.le_add_right _ _))
    hends.1 hbelow hnormal' ?_).trans hinside.runsTo fun t' hcur hruns hmirrors' hready => ?_
  · -- the first step neither passes anything over nor repeats anything
    intro hpasses
    rcases hpasses with hsame | hrepeats
    · exact absurd hsame hchanges
    · rw [hquantified] at hrepeats
      exact Bool.noConfusion hrepeats
  · refine hmirrors'.run hready hinside hu hinside.runsTo.advance_sub ?_ (by
      show a.cur.pos ≤ u.cur.pos
      omega) (hruns.runsTo.invariant IsNormal.move hnormal')
    have hmore := hmatches.advance
    rw [← hstep.advance_sub] at hmore
    rw [hcur]
    exact hmore

/-- Behind the piece the two runs mirror each other, once the atomic group is
    closed. -/
theorem exists_behind (h : Excerpt text missing a b c d) {u : ParserState} {tail : Text}
    (hmirrors : Framing.Mirrors ⟨⟨text, 0, false⟩, [], []⟩ a t)
    (hwithin : (within text missing a b t).Mirrors c u) (hrest : u.cur.rest = ')' :: tail)
    (hopener : u.outer = t.frame :: t.outer → u.frame.opener = .group .atomic) :
    ∃ v, Next u v ∧ v.cur.rest = tail ∧
      Framing.Mirrors ⟨⟨text, a.cur.pos, missing⟩, [], []⟩ d v ∧ Framing.Ready d v := by
  -- no frame has been opened in the excerpt and left open
  have houter : u.outer = t.frame :: t.outer := by
    obtain ⟨inner, inner', hinner, hinner', halike⟩ := hwithin.outer
    rw [h.level] at hinner
    obtain rfl : inner = [] := List.append_left_eq_self.mp hinner.symm
    obtain rfl := List.forall₂_nil_left_iff.mp halike
    exact hinner'
  obtain ⟨node, count, hnode, hnext⟩ := exists_next_closing hrest houter (hopener houter)
  obtain ⟨hverbose, hsame, hfinished⟩ := h.frame
  obtain ⟨hgroups, hnames, hreferences⟩ := h.kept
  refine ⟨_, hnext, by rw [Cursor.advance_rest, hrest]; rfl, ?_, fun _ => hnode⟩
  obtain ⟨inner, inner', hinner, hinner', halike⟩ := hmirrors.outer
  refine ⟨⟨hmirrors.frame.verbose.trans hverbose.symm, ?_⟩,
    ⟨inner, inner', h.outer.trans hinner, hinner', halike⟩, ?_, ?_, ?_⟩
  · intro condition hcondition
    rw [hsame, hfinished]
    exact hmirrors.frame.conditional condition hcondition
  · rw [hgroups]
    exact hwithin.groups
  · rw [hnames]
    exact hwithin.names
  · rw [hreferences]
    exact hwithin.references

/-- The new text is read like the old one up to the end, unless a reference is
    lost. -/
theorem exists_last (h : Excerpt text missing a b c d)
    (htext : text' = excerptText text a.cur.pos b.cur.pos c.cur.pos d.cur.pos)
    (hlast : d.RunsTo last) (hend : last.cur.rest = []) :
    (∃ last', (initial text').RunsTo last' ∧ last'.cur.rest = [] ∧
        Framing.Mirrors ⟨⟨text, a.cur.pos, missing⟩, [], []⟩ last last') ∨
      ∃ r ∈ last.references, Recount.Moves ⟨text, a.cur.pos, missing⟩ r.position ∧
        r.target = Nat.toDigits 10 1 ∧ ∃ failure, Pattern.parse text' = .error failure := by
  obtain ⟨t, hruns, hrest, hmirrors⟩ := h.exists_before htext
  have hnormal := IsNormal.of_runsTo hruns
  have hopened := hruns.tail (next_atomic hrest)
  have hends := h.pos_le
  -- the runs inside the group, then over its end, then behind it
  cases h.ends_within hmirrors hnormal hrest with
  | lost hr hmoves htarget hruns' hrest' hstep =>
    have hmem := RunsTo.references_subset (h.after.trans hlast) hr
    exact .inr ⟨_, hmem, hmoves, htarget, _,
      Pattern.parse_of_step_error (hopened.trans hruns') hrest' hstep⟩
  | @arrives u hinside hcur hwithin hready =>
    have hu := hopened.trans hinside.runsTo
    have hbehind : u.cur.rest = ')' :: text.drop d.cur.pos := by
      have hlength : (slice text b.cur.pos c.cur.pos).length = c.cur.pos - b.cur.pos := by
        have hle := h.runsTo_c.pos_le_length
        rw [slice, List.length_take, List.length_drop]
        omega
      rw [hcur, ← hlength]
      show ((t.cur.advance 3).rest.drop _) = _
      rw [Cursor.advance_rest, hrest]
      exact List.drop_left
    obtain ⟨v, hnext, hrest', hbehind', hready'⟩ := h.exists_behind hmirrors hwithin hbehind
      fun houter => hinside.opener_eq hopened houter
    have hv := hu.tail hnext
    obtain ⟨n, hn, hcur'⟩ := hlast.reaches
    have hplace := (RemembersTargets.of_runsTo h.runsTo_d).place
    have hmatches : d.cur.Matches v.cur n := .of_rest_eq (hrest'.trans hplace.symm) hn
    have hmark : a.cur.pos ≤ d.cur.pos := by omega
    cases hbehind'.run hready' hlast.above_nil h.runsTo_d hcur' hmatches hmark (.of_runsTo hv) with
    | lost hr hmoves htarget hruns' hrest'' hstep =>
      exact .inr ⟨_, hr, hmoves, htarget, _,
        Pattern.parse_of_step_error (hv.trans hruns') hrest'' hstep⟩
    | @arrives last' hruns' hcur'' hfinal _ =>
      refine .inl ⟨last', hv.trans hruns'.runsTo, ?_, hfinal⟩
      rw [hcur'', Cursor.advance_rest, hrest', ← hplace, ← Cursor.advance_rest, ← hcur']
      exact hend

/-! ## Section 5: Acceptance -/

/-- The new text is accepted exactly when all references survive that a group
    is missing. -/
theorem accepted_iff (h : Excerpt text missing a b c d)
    (htext : text' = excerptText text a.cur.pos b.cur.pos c.cur.pos d.cur.pos)
    (hlast : d.RunsTo last) (hend : last.cur.rest = []) {root : Node}
    (hfinish : last.finish = .ok root) :
    (∃ q, Pattern.parse text' = .ok q) ↔
      (missing = true → ∀ r ∈ last.references, r.Survives text a.cur.pos last.groups) := by
  rcases h.exists_last htext hlast hend with
    ⟨last', hruns', hend', hmirrors⟩ | ⟨r, hr, hmoves, htarget, failure, herror⟩
  · exact accepted_iff_of_mirrors hruns' hend' hmirrors hfinish
  · refine iff_of_false ?_ fun hsurvives => ?_
    · intro haccepted
      obtain ⟨q, hparse⟩ := haccepted
      simp [herror] at hparse
    · exact not_survives_of_moves hmoves htarget (hsurvives hmoves.1 r hr)

end Excerpt

end ParserState

end RegexInsight
