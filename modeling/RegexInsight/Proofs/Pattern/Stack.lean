import Mathlib
import RegexInsight.Proofs.Pattern.Gap

/-! # What a step does to the open frames

    A step passes something over, appends leaves, begins a branch, opens or
    closes a frame, or puts a quantifier over the last item.  Where the new
    nodes stand in the text follows from where the step began, unless they
    come from a quote.  Since a frame is only left by closing it, the state
    in which it was opened can be found again, and so can the states between
    which an item was read. -/

namespace RegexInsight

/-! ## Section 1: Changes -/

/-- The flags in force inside a frame that is opened. -/
def Opener.inside (opener : Opener) (modes : Modes) : Modes :=
  match opener with
  | .group (.nonCapturing (some flags)) => modes.apply flags
  | _ => modes

/-- The item ends a quote: behind it stands the mark that ends the quote. -/
def Node.EndsQuote (text : Text) (item : Node) (stop : Nat) : Prop :=
  ['\\', 'E'] <+: slice text item.stop stop

theorem Node.EndsQuote.mono {text : Text} {item : Node} {stop stop' : Nat}
    (h : item.EndsQuote text stop) (hle : stop ≤ stop') : item.EndsQuote text stop' := by
  refine List.IsPrefix.trans h ?_
  unfold slice
  exact List.take_prefix_take_left (by omega)

namespace ParserState

/-- What one step does to the open frames. -/
inductive Change (text : Text) (s s' : ParserState) : Prop where
  /-- Something is passed over. -/
  | passes (hstate : s' = s.moveTo s'.cur)
  /-- Leaves are appended.  A single one begins where the step does. -/
  | appends {new : List Node} {modes : Modes} (hsome : new ≠ [])
      (hframe : s'.frame = { s.frame with
        modes := modes, items := new ++ s.frame.items, quantified := false })
      (houter : s'.outer = s.outer)
      (hspans : ∀ n ∈ new, n.children = [] ∧ s.cur.pos ≤ n.start ∧ n.stop ≤ s'.cur.pos)
      (hmodes : modes = s.frame.modes ∨ ∃ n flags, new = [n] ∧ n.label = .flags flags)
      (hlast : (∃ n, new = [n] ∧ n.start = s.cur.pos) ∨ s'.cur.rest = [] ∨
        ∃ n before, new = n :: before ∧ n.EndsQuote text s'.cur.pos)
      (hforward : ∀ n ∈ new, n.start ≤ n.stop)
      (hordered : new.Pairwise fun later n => n.stop ≤ later.start)
  | begins (hframe : s'.frame = s.frame.nextBranch) (houter : s'.outer = s.outer)
  | opens {opener : Opener}
      (hframe : s'.frame = .opened opener s.cur.pos (opener.inside s.frame.modes))
      (houter : s'.outer = s.frame :: s.outer)
      (hopening : s.cur.rest.head? = some '(')
  | closes {frame : Frame} {outer : List Frame} {node : Node} {count : Nat}
      (houter : s.outer = frame :: outer)
      (hclose : s.frame.close s.count s'.cur.pos = .ok (node, count))
      (hstate : s' = { s with
        cur := s'.cur, frame := frame.push node, outer := outer, count := count })
      (hclosing : s.cur.rest.head? = some ')') (hpos : s'.cur.pos = s.cur.pos + 1)
  | quantifies {bounds : Bounds} {mode : QuantifierMode} {item : Node} {items : List Node}
      (hfirst : s.frame.quantified = false) (hitems : s.frame.items = item :: items)
      (hitem : item.label.isRepeatable = true)
      (hstate : s' = s.putQuantifier bounds mode item items s'.cur)

variable {text : Text} {s s' : ParserState} {cur : Cursor} {c : Char} {rest : Text}

/-- A leaf that begins where the step does. -/
theorem change_of_leaf {t : ParserState} {leaf : Escape.Leaf} {modes : Modes}
    (hframe : t.frame = { s.frame with modes := modes }) (houter : t.outer = s.outer)
    (hmodes : modes = s.frame.modes ∨ ∃ flags, leaf.label = .flags flags)
    (hstart : leaf.start = s.cur.pos) (hspan : s.cur.pos ≤ leaf.stop ∧ leaf.stop ≤ cur.pos) :
    Change text s ((t.addLeaf leaf).moveTo cur) := by
  refine @Change.appends _ _ _ [.build t.count leaf.label leaf.start leaf.stop []] modes
    (List.cons_ne_nil _ _) ?_ houter (fun n hn => ?_) (hmodes.imp_right ?_)
    (.inl ⟨_, rfl, hstart⟩) (fun n hn => ?_) (List.pairwise_singleton _ _)
  · show t.frame.push _ = _
    rw [hframe]
    rfl
  · obtain rfl := List.mem_singleton.mp hn
    exact ⟨rfl, hstart.ge, hspan.2⟩
  · intro hflags
    obtain ⟨flags, hlabel⟩ := hflags
    exact ⟨_, flags, rfl, hlabel⟩
  · obtain rfl := List.mem_singleton.mp hn
    exact hstart.le.trans hspan.1

theorem change_of_enter {t : ParserState} {opener : Opener} {modes : Modes}
    (hrest : s.cur.rest = '(' :: rest) (hframe : t.frame = s.frame) (houter : t.outer = s.outer)
    (hmodes : modes = opener.inside s.frame.modes) :
    Change text s (t.enter opener s.cur.pos modes cur) := by
  refine @Change.opens _ _ _ opener ?_ ?_ (hrest ▸ rfl)
  · rw [← hmodes]
    rfl
  · show t.frame :: t.outer = _
    rw [hframe, houter]

theorem change_of_readOpening (hrest : s.cur.rest = '(' :: rest) (h : s.readOpening = .ok s') :
    Change text s s' := by
  obtain ⟨head, n, -, hact⟩ := exists_headAt hrest h
  cases head with
  | comment inner =>
    obtain rfl := Except.ok.inj hact
    exact .passes rfl
  | named name spelling =>
    obtain ⟨-, hstate⟩ := Read.guard_eq_ok.mp hact
    obtain rfl := Except.ok.inj hstate
    exact change_of_enter hrest rfl rfl rfl
  | numberCall target =>
    obtain ⟨reference, -, hstate⟩ := Read.bind_eq_ok.mp hact
    obtain rfl := Except.ok.inj hstate
    exact change_of_leaf rfl rfl (.inl rfl) rfl ⟨Nat.le_add_right _ _, Nat.le_refl _⟩
  | flags text =>
    obtain rfl := Except.ok.inj hact
    exact change_of_leaf rfl rfl (.inr ⟨_, rfl⟩) rfl ⟨Nat.le_add_right _ _, Nat.le_refl _⟩
  | backreference | nameCall | wholeCall =>
    obtain rfl := Except.ok.inj hact
    exact change_of_leaf rfl rfl (.inl rfl) rfl ⟨Nat.le_add_right _ _, Nat.le_refl _⟩
  | capturing | plain | atomic | lookaround | conditional | flagGroup =>
    obtain rfl := Except.ok.inj hact
    exact change_of_enter hrest rfl rfl rfl

theorem change_of_readClosing (hrest : s.cur.rest = ')' :: rest) (h : s.readClosing = .ok s') :
    Change text s s' := by
  obtain ⟨frame, outer, node, count, houter, hclose, rfl⟩ := exists_of_readClosing h
  exact .closes houter hclose rfl (hrest ▸ rfl) rfl

theorem change_of_applyQuantifier {bounds : Bounds} (h : s.applyQuantifier bounds cur = .ok s') :
    Change text s s' := by
  obtain ⟨-, hfirst, item, items, mode, stop, hitems, hitem, -, rfl⟩ :=
    applyQuantifier_eq_ok_iff.mp h
  exact .quantifies hfirst hitems hitem rfl

theorem change_of_readBracket (hrest : s.cur.rest = '[' :: rest) (h : s.readBracket = .ok s') :
    Change text s s' := by
  obtain ⟨⟨leaf, after⟩, hleaf, hstate⟩ := Read.bind_eq_ok.mp h
  obtain rfl := Except.ok.inj hstate
  have hle := (Bracket.read_spec hrest hleaf).1.reaches.pos_le
  obtain ⟨⟨members, after'⟩, -, hpair⟩ := Read.bind_eq_ok.mp hleaf
  obtain ⟨rfl, rfl⟩ := Prod.mk.inj (Except.ok.inj hpair)
  exact change_of_leaf rfl rfl (.inl rfl) rfl ⟨hle, Nat.le_refl _⟩

/-! ## Section 2: Escapes -/

theorem outer_foldl_addLeaf (leaves : List Escape.Leaf) :
    (leaves.foldl addLeaf s).outer = s.outer := by
  induction leaves generalizing s with
  | nil => rfl
  | cons leaf rest ih => exact ih

/-- Some leaves, the last one first, stand before the items. -/
theorem exists_frame_foldl_addLeaf (first : Escape.Leaf) (leaves : List Escape.Leaf) :
    ∃ new, new ≠ [] ∧
      ((first :: leaves).foldl addLeaf s).frame =
        { s.frame with items := new ++ s.frame.items, quantified := false } ∧
      (∀ n ∈ new, ∃ leaf ∈ first :: leaves, ∃ count,
        n = .build count leaf.label leaf.start leaf.stop []) ∧
      ((first :: leaves).Pairwise (fun leaf later => leaf.stop ≤ later.start) →
        new.Pairwise fun later n => n.stop ≤ later.start) := by
  -- the first leaf is added first, so that it stands deepest
  induction leaves generalizing s first with
  | nil =>
    refine ⟨[.build s.count first.label first.start first.stop []], List.cons_ne_nil _ _, rfl, ?_,
      fun _ => List.pairwise_singleton _ _⟩
    intro n hn
    exact ⟨first, List.mem_cons_self, s.count, List.mem_singleton.mp hn⟩
  | cons second rest ih =>
    obtain ⟨new, -, hframe, hnew, hordered⟩ := ih (s := s.addLeaf first) second
    refine ⟨new ++ [.build s.count first.label first.start first.stop []], by simp, ?_, ?_, ?_⟩
    · rw [List.foldl_cons, hframe, List.append_assoc]
      rfl
    · intro n hn
      rcases List.mem_append.mp hn with hmem | hmem
      · obtain ⟨leaf, hleaf, hbuild⟩ := hnew n hmem
        exact ⟨leaf, List.mem_cons_of_mem _ hleaf, hbuild⟩
      · exact ⟨first, List.mem_cons_self, s.count, List.mem_singleton.mp hmem⟩
    · intro hpairs
      obtain ⟨hfirst, hrest⟩ := List.pairwise_cons.mp hpairs
      refine List.pairwise_append.mpr ⟨hordered hrest, List.pairwise_singleton _ _, ?_⟩
      intro later hlater n hn
      obtain rfl := List.mem_singleton.mp hn
      obtain ⟨leaf, hleaf, count, rfl⟩ := hnew later hlater
      exact hfirst leaf hleaf

theorem span_of_mem_quotedLeaves {modes : Modes} {pos : Nat} {quoted : Text} {leaf : Escape.Leaf}
    (h : leaf ∈ Escape.quotedLeaves modes pos quoted) :
    pos ≤ leaf.start ∧ leaf.start ≤ leaf.stop ∧ leaf.stop ≤ pos + quoted.length := by
  induction quoted generalizing pos with
  | nil => exact absurd h List.not_mem_nil
  | cons c rest ih =>
    rw [List.length_cons]
    rcases List.mem_cons.mp h with rfl | hmem
    · exact ⟨Nat.le_refl _, Nat.le_succ _, by show pos + 1 ≤ _; omega⟩
    · obtain ⟨hstart, hforward, hstop⟩ := ih hmem
      exact ⟨by omega, hforward, by omega⟩

/-- Quoted characters follow one another. -/
theorem pairwise_quotedLeaves (modes : Modes) (pos : Nat) (quoted : Text) :
    (Escape.quotedLeaves modes pos quoted).Pairwise fun leaf later => leaf.stop ≤ later.start := by
  induction quoted generalizing pos with
  | nil => exact .nil
  | cons c rest ih =>
    exact List.pairwise_cons.mpr ⟨fun later hlater => (span_of_mem_quotedLeaves hlater).1, ih _⟩

/-- A quote appends its characters, and the mark at its end stands behind
    the last of them. -/
theorem change_of_quote {quoted : Text} (hle : s.cur.pos + 2 + quoted.length ≤ cur.pos)
    (hlast : cur.rest = [] ∨
      ['\\', 'E'] <+: slice text (s.cur.pos + 2 + quoted.length) cur.pos) :
    Change text s
      (((Escape.quotedLeaves s.frame.modes (s.cur.pos + 2) quoted).foldl addLeaf s).moveTo cur) := by
  rcases List.eq_nil_or_concat quoted with rfl | ⟨before, c, rfl⟩
  · exact .passes rfl
  · obtain ⟨first, leaves, hleaves⟩ : ∃ first leaves,
        Escape.quotedLeaves s.frame.modes (s.cur.pos + 2) (before.concat c) = first :: leaves := by
      cases before with
      | nil => exact ⟨_, _, rfl⟩
      | cons d before => exact ⟨_, _, rfl⟩
    obtain ⟨new, hsome, hframe, hnew, hordered⟩ := exists_frame_foldl_addLeaf (s := s) first leaves
    rw [← hleaves] at hframe hnew hordered
    refine .appends hsome hframe (outer_foldl_addLeaf _) (fun n hn => ?_) (.inl rfl)
      (.inr (hlast.imp_right fun hends => ?_)) (fun n hn => ?_)
      (hordered (pairwise_quotedLeaves _ _ _))
    · obtain ⟨leaf, hleaf, count, rfl⟩ := hnew n hn
      obtain ⟨hstart, -, hstop⟩ := span_of_mem_quotedLeaves hleaf
      exact ⟨rfl, Nat.le_trans (Nat.le_add_right _ 2) hstart, Nat.le_trans hstop hle⟩
    · -- the last leaf is the last character
      obtain ⟨count, items, hitems⟩ := items_quoted s.frame.modes (s.cur.pos + 2) before c s
      rw [← List.concat_eq_append, hframe] at hitems
      cases new with
      | nil => exact absurd rfl hsome
      | cons n rest =>
        refine ⟨n, rest, rfl, ?_⟩
        have hn := (List.cons.inj hitems).1
        rw [Node.EndsQuote, hn]
        rw [List.length_concat] at hends
        exact hends
    · obtain ⟨leaf, hleaf, count, rfl⟩ := hnew n hn
      exact (span_of_mem_quotedLeaves hleaf).2.1

theorem change_of_readQuoted {reading : Escape.Reading} {after : Cursor}
    (hplace : s.cur.rest = text.drop s.cur.pos)
    (h : Escape.readQuoted s.frame.modes (s.cur.advance 2) = (reading, after)) :
    Change text s ((reading.leaves.foldl addLeaf s).moveTo after) := by
  obtain ⟨quoted, hquotes, rfl⟩ := Escape.quotes_of_readQuoted h
  cases hquotes with
  | ended hfound =>
    obtain ⟨⟨tail, htail⟩, -⟩ := Cursor.beforePair?_eq_some_iff.mp hfound
    refine change_of_quote (by simp only [Cursor.advance_pos]; omega) (.inr ?_)
    have hbehind : text.drop (s.cur.pos + 2 + quoted.length) = ['\\', 'E'] ++ tail := by
      rw [← List.drop_drop, ← List.drop_drop, ← hplace, ← Cursor.advance_rest, htail,
        List.drop_left]
      rfl
    refine ⟨[], ?_⟩
    rw [slice, hbehind]
    simp only [Cursor.advance_pos]
    have hwidth : s.cur.pos + 2 + (quoted.length + 2) - (s.cur.pos + 2 + quoted.length) = 2 := by
      omega
    rw [hwidth]
    rfl
  | unended => exact change_of_quote (Nat.le_refl _) (.inl List.drop_length)

theorem change_of_readEscape (hplace : s.cur.rest = text.drop s.cur.pos)
    (hrest : s.cur.rest = '\\' :: rest) (h : s.readEscape = .ok s') : Change text s s' := by
  obtain ⟨⟨reading, after⟩, hread, hstate⟩ := Read.bind_eq_ok.mp h
  obtain rfl := Except.ok.inj hstate
  obtain ⟨hpasses, hsound⟩ := Escape.read_spec hrest hread
  have hle := hpasses.reaches.pos_le
  cases hsound with
  | backreference => exact change_of_leaf rfl rfl (.inl rfl) rfl ⟨hle, Nat.le_refl _⟩
  | recursion => exact change_of_leaf rfl rfl (.inl rfl) rfl ⟨hle, Nat.le_refl _⟩
  | whole => exact change_of_leaf rfl rfl (.inl rfl) rfl ⟨hle, Nat.le_refl _⟩
  | plain hplain =>
    rcases Escape.read_plain_cases hrest hread hplain with
      ⟨rest', rfl, hquoted⟩ | ⟨c, rest', rfl, label, width, n, hreading, rfl, htwo, -, hspans⟩
    · exact change_of_readQuoted hplace hquoted
    · obtain ⟨rfl, -⟩ := Escape.Reading.mk.inj hreading
      exact change_of_leaf rfl rfl (.inl rfl) rfl
        ⟨Nat.le_add_right _ _, Nat.add_le_add_left (hspans.le htwo) _⟩

/-- Every step makes one of the changes. -/
theorem Next.change (hplace : s.cur.rest = text.drop s.cur.pos) (h : Next s s') :
    Change text s s' := by
  rcases h.cases with ⟨after, -, rfl⟩ | ⟨c, rest, result, hrest, hreads, h⟩
  · exact .passes rfl
  cases hreads with
  | opening => exact change_of_readOpening hrest h
  | closing => exact change_of_readClosing hrest h
  | bar =>
    obtain rfl := Except.ok.inj h
    exact .begins rfl rfl
  | unread => simp at h
  | quantifier => exact change_of_applyQuantifier h
  | bracket => exact change_of_readBracket hrest h
  | escape => exact change_of_readEscape hplace hrest h
  | single =>
    obtain rfl := Except.ok.inj h
    exact change_of_leaf rfl rfl (.inl rfl) rfl ⟨Nat.le_succ _, Nat.le_refl _⟩

/-! ## Section 3: Runs above some frames -/

/-- Steps lead from `s` to `s'`, and none of them closes one of the frames
    `below`. -/
def RunsAbove (below : List Frame) : ParserState → ParserState → Prop :=
  Relation.ReflTransGen fun s s' => Next s s' ∧ below <:+ s'.outer

variable {below : List Frame} {a b t : ParserState}

theorem RunsAbove.runsTo (h : RunsAbove below s s') : s.RunsTo s' :=
  Relation.ReflTransGen.mono (fun _ _ hstep => hstep.1) _ _ h

theorem RunsAbove.mono {below' : List Frame} (h : RunsAbove below s s') (hle : below' <:+ below) :
    RunsAbove below' s s' :=
  Relation.ReflTransGen.mono (fun _ _ hstep => ⟨hstep.1, hle.trans hstep.2⟩) _ _ h

theorem RunsAbove.trans (h : RunsAbove below s t) (h' : RunsAbove below t s') :
    RunsAbove below s s' :=
  Relation.ReflTransGen.trans h h'

theorem RunsAbove.suffix_outer (h : RunsAbove below s s') (hbelow : below <:+ s.outer) :
    below <:+ s'.outer := by
  cases h with
  | refl => exact hbelow
  | tail _ hstep => exact hstep.2

theorem RunsTo.reaches (h : s.RunsTo s') : s.cur.Reaches s'.cur := by
  induction h with
  | refl => exact .refl _
  | tail _ hnext ih => exact ih.trans hnext.move.passes.reaches

theorem RunsTo.above_nil (h : s.RunsTo s') : RunsAbove [] s s' :=
  Relation.ReflTransGen.mono (fun _ _ hnext => ⟨hnext, List.nil_suffix⟩) _ _ h

/-- What a change does to the stack of frames. -/
theorem Change.stack (h : Change text s s') :
    (s'.outer = s.outer ∧ s'.frame.opener = s.frame.opener ∧ s'.frame.start = s.frame.start) ∨
      (∃ opener, s'.frame = .opened opener s.cur.pos (opener.inside s.frame.modes) ∧
        s'.outer = s.frame :: s.outer) ∨
      ∃ frame outer node, s.outer = frame :: outer ∧ s'.frame = frame.push node ∧
        s'.outer = outer := by
  cases h with
  | passes hstate =>
    rw [hstate]
    exact .inl ⟨rfl, rfl, rfl⟩
  | appends _ hframe houter =>
    rw [hframe]
    exact .inl ⟨houter, rfl, rfl⟩
  | begins hframe houter =>
    rw [hframe]
    exact .inl ⟨houter, rfl, rfl⟩
  | opens hframe houter => exact .inr (.inl ⟨_, hframe, houter⟩)
  | closes houter _ hstate =>
    rw [hstate]
    exact .inr (.inr ⟨_, _, _, houter, rfl, rfl⟩)
  | quantifies _ _ _ hstate =>
    rw [hstate]
    exact .inl ⟨rfl, rfl, rfl⟩

/-- One step from `a` to `c` opened the frame `g` inside of the frame `f`,
    on the way from `b` to `s`. -/
structure Opening (b s : ParserState) (g f : Frame) (around : List Frame) (a c : ParserState) :
    Prop where
  before : RunsAbove b.outer b a
  opens : Next a c
  after : RunsAbove (f :: around) c s
  frame : a.frame = f
  outer : a.outer = around
  start : a.cur.pos = g.start
  opened : c.frame = .opened g.opener g.start (g.opener.inside f.modes)
  inner : c.outer = f :: around

/-- An opening goes on over a step that keeps the frame below it, also when the
    step changed what the frame holds. -/
theorem Opening.tail {f g g' : Frame} {around : List Frame} {a c : ParserState}
    (h : Opening b t g' f around a c) (hnext : Next t s) (hsuffix : f :: around <:+ s.outer)
    (hopener : g'.opener = g.opener) (hstart : g'.start = g.start) :
    Opening b s g f around a c where
  before := h.before
  opens := h.opens
  after := h.after.tail ⟨hnext, hsuffix⟩
  frame := h.frame
  outer := h.outer
  start := h.start.trans hstart
  opened := by
    rw [h.opened, hopener, hstart]
  inner := h.inner

/-- A frame that is not the current one has all frames below it among the
    outer ones. -/
theorem suffix_of_split {stack above around : List Frame} {f g x : Frame}
    (hstack : x :: stack = above ++ g :: f :: around) : f :: around <:+ stack := by
  cases above with
  | nil =>
    obtain ⟨-, hsplit⟩ := List.cons.inj hstack
    exact hsplit ▸ List.suffix_refl _
  | cons y above =>
    obtain ⟨-, hsplit⟩ := List.cons.inj hstack
    exact hsplit ▸ ⟨above ++ [g], by simp⟩

/-- A frame above another one was open there before the step, with the same
    opener, or the step has just opened it. -/
theorem Change.split (h : Change text s s') {above outer : List Frame} {f g : Frame}
    (hstack : s'.frame :: s'.outer = above ++ g :: f :: outer) :
    (∃ above' g', s.frame :: s.outer = above' ++ g' :: f :: outer ∧ g'.opener = g.opener ∧
      g'.start = g.start) ∨
    s.frame = f ∧ s.outer = outer ∧ s'.outer = f :: outer ∧
      g = .opened g.opener s.cur.pos (g.opener.inside f.modes) ∧ s'.frame = g := by
  rcases h.stack with
    ⟨houter, hopener, hstart⟩ | ⟨opener, hframe, houter⟩ | ⟨frame, rest, node, houter, hframe, hrest⟩
  · -- the current frame goes on
    cases above with
    | nil =>
      obtain ⟨rfl, hsplit⟩ := List.cons.inj hstack
      refine .inl ⟨[], s.frame, ?_, hopener.symm, hstart.symm⟩
      rw [← houter, hsplit]
      rfl
    | cons x above =>
      obtain ⟨-, hsplit⟩ := List.cons.inj hstack
      refine .inl ⟨s.frame :: above, g, ?_, rfl, rfl⟩
      rw [← houter, hsplit]
      rfl
  · -- a frame is opened: it is the one in question, or above it
    cases above with
    | nil =>
      obtain ⟨hcurrent, hsplit⟩ := List.cons.inj hstack
      obtain ⟨rfl, rfl⟩ := List.cons.inj (houter.symm.trans hsplit)
      refine .inr ⟨rfl, rfl, houter, ?_, hcurrent⟩
      rw [← hcurrent, hframe]
      rfl
    | cons x above =>
      obtain ⟨-, hsplit⟩ := List.cons.inj hstack
      exact .inl ⟨above, g, houter.symm.trans hsplit, rfl, rfl⟩
  · -- the current frame is closed, and was above the one in question
    cases above with
    | nil =>
      obtain ⟨rfl, hsplit⟩ := List.cons.inj hstack
      refine .inl ⟨[s.frame], frame, ?_, by rw [hframe]; rfl, by rw [hframe]; rfl⟩
      rw [houter, ← hrest, hsplit]
      rfl
    | cons x above =>
      obtain ⟨-, hsplit⟩ := List.cons.inj hstack
      refine .inl ⟨s.frame :: frame :: above, g, ?_, rfl, rfl⟩
      rw [houter, ← hrest, hsplit]
      rfl

/-- Every open frame was opened: the stack of frames goes back to the state
    in which each of them was the current one. -/
theorem exists_opening (hb : (initial text).RunsTo b) (h : RunsAbove b.outer b s)
    {above outer : List Frame} {f g : Frame}
    (hstack : s.frame :: s.outer = above ++ g :: f :: outer)
    (hbelow : b.outer <:+ outer) : ∃ a c, Opening b s g f outer a c := by
  -- by induction on the run, for all frames of the stack at once
  induction h generalizing above g with
  | refl =>
    -- no frame has been opened yet
    have hlength := congrArg List.length hstack
    have hle := hbelow.length_le
    simp only [List.length_cons, List.length_append] at hlength
    omega
  | @tail t s hruns hstep ih =>
    have hplace := (RemembersTargets.of_runsTo (hb.trans (RunsAbove.runsTo hruns))).place
    have hsuffix := suffix_of_split hstack
    rcases (hstep.1.change hplace).split hstack with
      ⟨above', g', hbefore, hopener, hstart⟩ | ⟨hframe, houter, hinner, hopened, hcurrent⟩
    · obtain ⟨a, c, hopening⟩ := ih hbefore
      exact ⟨a, c, hopening.tail hstep.1 hsuffix hopener hstart⟩
    · have hstart : t.cur.pos = g.start := by rw [hopened]; rfl
      refine ⟨t, s, hruns, hstep.1, .refl, hframe, houter, hstart, ?_, hinner⟩
      rw [← hstart, hcurrent]
      exact hopened

/-- The frame that was open at first stays open. -/
theorem RunsAbove.exists_base (hb : (initial text).RunsTo b) (h : RunsAbove b.outer b s) :
    ∃ above g, s.frame :: s.outer = above ++ g :: b.outer ∧ g.opener = b.frame.opener := by
  induction h with
  | refl => exact ⟨[], b.frame, rfl, rfl⟩
  | @tail t s hruns hstep ih =>
    have hplace := (RemembersTargets.of_runsTo (hb.trans (RunsAbove.runsTo hruns))).place
    obtain ⟨above, g, hstack, hopener⟩ := ih
    rcases (hstep.1.change hplace).stack with
      ⟨houter, hsame, -⟩ | ⟨opener, hframe, houter⟩ | ⟨frame, rest, node, houter, hframe, hrest⟩
    · cases above with
      | nil =>
        obtain ⟨rfl, hsplit⟩ := List.cons.inj hstack
        exact ⟨[], s.frame, by rw [houter, hsplit]; rfl, hsame.trans hopener⟩
      | cons x above =>
        obtain ⟨-, hsplit⟩ := List.cons.inj hstack
        exact ⟨s.frame :: above, g, by rw [houter, hsplit]; rfl, hopener⟩
    · exact ⟨s.frame :: above, g, by rw [houter, hstack]; rfl, hopener⟩
    · cases above with
      | nil =>
        -- the frame would be closed
        obtain ⟨-, hsplit⟩ := List.cons.inj hstack
        have hle := hstep.2.length_le
        have hlength := congrArg List.length (houter.symm.trans hsplit)
        rw [hrest] at hle
        rw [List.length_cons] at hlength
        omega
      | cons x above =>
        obtain ⟨-, hsplit⟩ := List.cons.inj hstack
        rw [houter] at hsplit
        cases above with
        | nil =>
          obtain ⟨rfl, hbase⟩ := List.cons.inj hsplit
          refine ⟨[], s.frame, by rw [hrest, hbase]; rfl, ?_⟩
          rw [hframe]
          exact hopener
        | cons y above =>
          obtain ⟨-, hsplit⟩ := List.cons.inj hsplit
          exact ⟨s.frame :: above, g, by rw [hrest, hsplit]; rfl, hopener⟩

/-- Back at its level, the frame that was open at first is the current
    one. -/
theorem RunsAbove.opener_eq (hb : (initial text).RunsTo b) (h : RunsAbove b.outer b s)
    (houter : s.outer = b.outer) : s.frame.opener = b.frame.opener := by
  obtain ⟨above, g, hstack, hopener⟩ := h.exists_base hb
  rw [houter] at hstack
  cases above with
  | nil =>
    obtain ⟨rfl, -⟩ := List.cons.inj hstack
    exact hopener
  | cons x above =>
    have hlength := congrArg List.length hstack
    simp only [List.length_cons, List.length_append] at hlength
    omega

/-- As long as the frame that was open at first is empty, everything was
    passed over. -/
theorem RunsAbove.eq_moveTo (hb : (initial text).RunsTo b) (h : RunsAbove b.outer b s)
    (houter : s.outer = b.outer) (hitems : s.frame.items = []) (hfinished : s.frame.finished = []) :
    s = b.moveTo s.cur := by
  -- else something was appended, or is inside a frame that was opened since
  have hkeep : s = b.moveTo s.cur ∨ b.outer.length < s.outer.length ∨ s.frame.items ≠ [] ∨
      s.frame.finished ≠ [] := by
    clear houter hitems hfinished
    induction h with
    | refl => exact .inl rfl
    | @tail t s hruns hstep ih =>
      have hplace := (RemembersTargets.of_runsTo (hb.trans (RunsAbove.runsTo hruns))).place
      cases hstep.1.change hplace with
      | passes hstate =>
        rcases ih with hpassed | hinside
        · left
          rw [hstate, hpassed]
          rfl
        · right
          rw [hstate]
          exact hinside
      | appends hsome hframe =>
        right; right; left
        rw [hframe]
        simp [hsome]
      | begins hframe =>
        right; right; right
        rw [hframe]
        exact List.cons_ne_nil _ _
      | opens _ houter =>
        right; left
        have hle := (RunsAbove.suffix_outer hruns (List.suffix_refl _)).length_le
        rw [houter, List.length_cons]
        omega
      | closes _ _ hstate =>
        right; right; left
        rw [hstate]
        exact List.cons_ne_nil _ _
      | quantifies _ _ _ hstate =>
        right; right; left
        rw [hstate]
        exact List.cons_ne_nil _ _
  rcases hkeep with hpassed | hinside | hsome | hmore
  · exact hpassed
  · rw [houter] at hinside
    exact absurd hinside (Nat.lt_irrefl _)
  · exact absurd hitems hsome
  · exact absurd hfinished hmore

/-! ## Section 4: Where an item was read -/

/-- The last item of the current branch was read from `a` on up to `v`, on
    the way from `b` to `s`. -/
structure Birth (b s : ParserState) (item : Node) (a v : ParserState) : Prop where
  before : RunsAbove b.outer b a
  start : a.cur.pos = item.start
  outer : s.outer = a.outer
  frame : s.frame = { a.frame with
    items := item :: a.frame.items, quantified := s.frame.quantified }
  /-- The first step passes nothing over and repeats nothing. -/
  inside : ∃ c, Next a c ∧ ¬ (c.frame = a.frame ∧ c.outer = a.outer) ∧
    c.frame.quantified = false ∧ a.outer <:+ c.outer ∧ RunsAbove a.outer c v
  stop : item.children ≠ [] → v.cur.pos = item.stop
  after : RunsAbove a.outer v s
  passed : s = v.moveTo s.cur

/-- The item ends a quote, or repeats an operand that does. -/
def EndsQuoted (text : Text) (item : Node) (stop : Nat) : Prop :=
  (item.children = [] ∧ item.EndsQuote text stop) ∨
    item.label.isQuantifier = true ∧ ∃ operand, item.children = [operand] ∧
      operand.EndsQuote text item.stop

theorem start_close {f : Frame} {count stop count' : Nat} {node : Node}
    (h : f.close count stop = .ok (node, count')) (hroot : f.opener ≠ .root) :
    node.start = f.start ∧ f.opener.label? = some node.label := by
  cases f.closed_of_close h with
  | root hopener => exact absurd hopener hroot
  | conditional hopener | lookaround hopener | group hopener => exact ⟨rfl, by rw [hopener]; rfl⟩

/-- A reading goes on over what is passed over. -/
theorem Birth.passes {item : Node} {v : ParserState} (h : Birth b t item a v) (hnext : Next t s)
    (hstate : s = t.moveTo s.cur) : Birth b s item a v where
  before := h.before
  start := h.start
  outer := by
    rw [hstate]
    exact h.outer
  frame := by
    rw [hstate]
    exact h.frame
  inside := h.inside
  stop := h.stop
  after := by
    refine h.after.tail ⟨hnext, ?_⟩
    rw [hstate]
    exact h.outer ▸ List.suffix_refl _
  passed := by
    rw [hstate, h.passed]
    rfl

/-- A single leaf is read in one step. -/
theorem Birth.of_leaf {item : Node} (hruns : RunsAbove b.outer b t) (hnext : Next t s)
    (hframe : s.frame = { t.frame with items := item :: t.frame.items, quantified := false })
    (houter : s.outer = t.outer) (hstart : item.start = t.cur.pos) (hleaf : item.children = []) :
    Birth b s item t s where
  before := hruns
  start := hstart.symm
  outer := houter
  frame := by
    rw [hframe]
  inside := by
    refine ⟨s, hnext, fun hsame => ?_, by rw [hframe], houter ▸ List.suffix_refl _, .refl⟩
    have hlength := congrArg (fun f => f.items.length) (hframe.symm.trans hsame.1)
    simp at hlength
  stop hchildren := absurd hleaf hchildren
  after := .refl
  passed := rfl

/-- A group is read from the step that opens its frame on up to the one that
    closes it. -/
theorem Birth.of_closed {frame : Frame} {outer : List Frame} {node : Node} {count : Nat}
    {c : ParserState}
    (hopening : Opening b t t.frame frame outer a c) (hnext : Next t s)
    (hroot : t.frame.opener ≠ .root) (hclose : t.frame.close t.count s.cur.pos = .ok (node, count))
    (hstate : s = { t with
      cur := s.cur, frame := frame.push node, outer := outer, count := count }) :
    Birth b s node a s where
  before := hopening.before
  start := by
    rw [hopening.start, (start_close hclose hroot).1]
  outer := by
    rw [hstate, hopening.outer]
  frame := by
    rw [hstate, hopening.frame]
    rfl
  inside := by
    -- the frame stood on the outer ones from the step that opened it
    refine ⟨c, hopening.opens, fun hsame => ?_, by rw [hopening.opened]; rfl, ?_, ?_⟩
    · have hlength := congrArg List.length (hopening.inner.symm.trans hsame.2)
      rw [hopening.outer, List.length_cons] at hlength
      omega
    · rw [hopening.inner, hopening.outer]
      exact List.suffix_cons _ _
    · rw [hopening.outer]
      refine (hopening.after.mono (List.suffix_cons _ _)).tail ⟨hnext, ?_⟩
      rw [hstate]
  stop _ := by
    rw [stop_close hclose hroot]
  after := .refl
  passed := rfl

/-- A quantified item is read from the start of its operand on. -/
theorem Birth.quantified {operand : Node} {items : List Node} {bounds : Bounds}
    {mode : QuantifierMode} {v : ParserState} (h : Birth b t operand a v) (hnext : Next t s)
    (hitems : t.frame.items = operand :: items)
    (hstate : s = t.putQuantifier bounds mode operand items s.cur) :
    Birth b s (.build t.count (.quantifier bounds mode) operand.start s.cur.pos [operand]) a s where
  before := h.before
  start := h.start
  outer := by
    rw [hstate]
    exact h.outer
  frame := by
    have hframe := h.frame
    rw [hframe] at hitems
    obtain ⟨-, rfl⟩ := List.cons.inj hitems
    rw [hstate]
    unfold putQuantifier
    dsimp only
    rw [hframe]
  inside := by
    obtain ⟨c, hopens, hchanges, hquantified, hinner, hinside⟩ := h.inside
    refine ⟨c, hopens, hchanges, hquantified, hinner, (hinside.trans h.after).tail ⟨hnext, ?_⟩⟩
    rw [hstate]
    exact h.outer ▸ List.suffix_refl _
  stop _ := rfl
  after := .refl
  passed := rfl

/-- Every item that is no change of flags was read from its start on, unless
    it comes from a quote. -/
theorem exists_birth (hb : (initial text).RunsTo b) (hempty : b.frame.items = [])
    (h : RunsAbove b.outer b s) {item : Node} {items : List Node}
    (hitems : s.frame.items = item :: items) (hflags : ∀ flags, item.label ≠ .flags flags) :
    s.cur.rest = [] ∨ EndsQuoted text item s.cur.pos ∨ ∃ a v, Birth b s item a v := by
  -- the last step put the item there, or something was passed over since
  induction h generalizing item items with
  | refl =>
    rw [hempty] at hitems
    exact absurd hitems (List.cons_ne_nil _ _).symm
  | @tail t s hruns hstep ih =>
    have hreached := hb.trans (RunsAbove.runsTo hruns)
    have hplace := (RemembersTargets.of_runsTo hreached).place
    have hnormal := IsNormal.of_runsTo hreached
    have hpos : t.cur.pos ≤ s.cur.pos := hstep.1.move.passes.reaches.pos_le
    have hsome : t.cur.rest ≠ [] := by
      obtain ⟨c, rest, hrest, -⟩ := hstep.1
      simp [hrest]
    cases hstep.1.change hplace with
    | passes hstate =>
      rw [hstate] at hitems
      rcases ih hitems hflags with hend | hquote | hbirth
      · exact absurd hend hsome
      · exact .inr (.inl (hquote.imp_left fun hends => ⟨hends.1, hends.2.mono hpos⟩))
      · obtain ⟨a, v, hbirth⟩ := hbirth
        exact .inr (.inr ⟨a, v, hbirth.passes hstep.1 hstate⟩)
    | @appends new modes hnew hframe houter hspans hmodes hlast =>
      rw [hframe] at hitems
      rcases hlast with ⟨n, rfl, hstart⟩ | hend | ⟨n, before, rfl, hends⟩
      · obtain ⟨rfl, rfl⟩ := List.cons.inj hitems
        have hsame : modes = t.frame.modes := by
          rcases hmodes with hsame | ⟨m, flags, hone, hlabel⟩
          · exact hsame
          · obtain ⟨rfl, -⟩ := List.cons.inj hone
            exact absurd hlabel (hflags flags)
        subst hsame
        have hleaf := (hspans n List.mem_cons_self).1
        exact .inr (.inr ⟨t, s, .of_leaf hruns hstep.1 hframe houter hstart hleaf⟩)
      · exact .inl hend
      · obtain ⟨rfl, -⟩ := List.cons.inj hitems
        exact .inr (.inl (.inl ⟨(hspans n List.mem_cons_self).1, hends⟩))
    | begins hframe =>
      rw [hframe] at hitems
      exact absurd hitems (List.cons_ne_nil _ _).symm
    | opens hframe =>
      rw [hframe] at hitems
      exact absurd hitems (List.cons_ne_nil _ _).symm
    | @closes frame outer node count houter hclose hstate =>
      rw [hstate] at hitems
      obtain ⟨rfl, rfl⟩ := List.cons.inj hitems
      have hroot := (hnormal.nested_of_outer houter).1
      have hbelow : b.outer <:+ outer := by
        have hsame : s.outer = outer := by rw [hstate]
        exact hsame ▸ hstep.2
      have hstack : t.frame :: t.outer = [] ++ t.frame :: frame :: outer := by rw [houter]; rfl
      obtain ⟨a, c, hopening⟩ := exists_opening hb hruns hstack hbelow
      exact .inr (.inr ⟨a, s, .of_closed hopening hstep.1 hroot hclose hstate⟩)
    | @quantifies bounds mode operand before hfirst hbefore hoperand hstate =>
      rw [hstate] at hitems
      obtain ⟨rfl, rfl⟩ := List.cons.inj hitems
      have hflags' : ∀ flags, operand.label ≠ .flags flags := by
        intro flags hlabel
        rw [hlabel] at hoperand
        exact Bool.noConfusion hoperand
      rcases ih hbefore hflags' with hend | hquote | hbirth
      · exact absurd hend hsome
      · rcases hquote with ⟨-, hends⟩ | ⟨hquantifier, -⟩
        · exact .inr (.inl (.inr ⟨rfl, operand, rfl, hends.mono hpos⟩))
        · -- a quantifier is not repeated at once
          have hquantified := hnormal.frame.quantified operand before hbefore hquantifier
          rw [hfirst] at hquantified
          exact Bool.noConfusion hquantified
      · obtain ⟨a, v, hbirth⟩ := hbirth
        exact .inr (.inr ⟨a, s, hbirth.quantified hstep.1 hbefore hstate⟩)

end ParserState

end RegexInsight
