import Mathlib
import RegexInsight.Proofs.Pattern.Span

/-! # Reading the span of a body

    The body that a frame closes into is read back from its span unless
    the span ends with a bare code, or one of several branches is empty.
    In the first case the characters before the code are read as before,
    and then the code fails or gives another character.  In the second the
    span starts with the first branch that is not empty; the branches from
    there on are read, and then the end of the group, which opens nowhere. -/

namespace RegexInsight

/-! ## Section 1: Trees that differ -/

namespace Shape

variable {xs ys : List Shape} {a b : Shape}

theorem body_injective (h : body xs = body ys) (hlength : xs.length = ys.length) : xs = ys := by
  rcases xs with _ | ⟨x, _ | ⟨x', xs⟩⟩
  · exact (List.length_eq_zero_iff.mp hlength.symm).symm
  · obtain ⟨y, rfl⟩ := List.length_eq_one_iff.mp hlength.symm
    exact congrArg (fun s => [s]) h
  · rcases ys with _ | ⟨y, _ | ⟨y', ys⟩⟩
    · simp at hlength
    · simp at hlength
    · exact (node.inj h).2

theorem branch_injective (h : branch xs = branch ys) (hlength : xs.length = ys.length) :
    xs = ys := by
  rcases xs with _ | ⟨x, _ | ⟨x', xs⟩⟩
  · exact (List.length_eq_zero_iff.mp hlength.symm).symm
  · obtain ⟨y, rfl⟩ := List.length_eq_one_iff.mp hlength.symm
    exact congrArg (fun s => [s]) h
  · rcases ys with _ | ⟨y, _ | ⟨y', ys⟩⟩
    · simp at hlength
    · simp at hlength
    · exact (node.inj h).2

end Shape

theorem Frame.outlines_push (f : Frame) (item : Node) :
    (f.push item).outlines =
      f.finished.reverse.map (fun items => Shape.branch (items.map Node.outline)) ++
        [Shape.branch (f.items.reverse.map Node.outline ++ [item.outline])] := by
  simp [outlines, branches, push]

/-- Bodies that differ in their last item are different. -/
theorem Frame.outline_eq_of_push {f : Frame} {item item' : Node}
    (h : Shape.body (f.push item).outlines = Shape.body (f.push item').outlines) :
    item.outline = item'.outline := by
  rw [outlines_push, outlines_push] at h
  have hlast := List.append_cancel_left (Shape.body_injective h (by simp))
  have hitems := Shape.branch_injective (List.head_eq_of_cons_eq hlast) (by simp)
  exact List.head_eq_of_cons_eq (List.append_cancel_left hitems)

namespace ParserState

variable {text : Text} {cur cur' : Cursor} {t : ParserState} {item last : Node}
  {items before : List Node} {finished : List (List Node)} {f g : Frame} {i m n : Nat}

/-! ## Section 2: Texts that fail -/

/-- A body is read from the start of a text. -/
theorem BodyAt.exists_initial (h : BodyAt ItemAt cur f n) (hlength : n ≤ cur.rest.length)
    (hnames : f.itemNames.Nodup) :
    ∃ t, (initial cur.rest).RunsTo t ∧ t.cur.rest = cur.rest.drop n ∧ t.outer = [] ∧
      t.frame.modes = .none := by
  have hcut : cur.Cut (initial cur.rest).cur n := ⟨List.prefix_refl _, hlength⟩
  obtain ⟨t, hfollows, -⟩ := h.exists_follows rfl rfl rfl hcut hnames
  exact ⟨t, hfollows.runs, hfollows.rest, hfollows.outer, hfollows.modes⟩

/-- A closing that opens nowhere is a fault. -/
theorem BodyAt.parse_closing {rest : Text} (h : BodyAt ItemAt cur f n)
    (hnames : f.itemNames.Nodup) (hrest : cur.rest.drop n = ')' :: rest) :
    ∃ e, Pattern.parse cur.rest = .error e := by
  have hlength : n < cur.rest.length := List.length_lt_of_drop_ne_nil (by simp [hrest])
  obtain ⟨t, hruns, htail, houter, -⟩ := h.exists_initial (Nat.le_of_lt hlength) hnames
  have hclosing : t.cur.rest = ')' :: rest := htail.trans hrest
  exact ⟨_, Pattern.parse_of_step_error hruns hclosing (step_unbalanced hclosing houter)⟩

/-- A hexadecimal code without its digits is a fault. -/
theorem BodyAt.parse_code {c : Char} (h : BodyAt ItemAt cur f n) (hnames : f.itemNames.Nodup)
    (hrest : cur.rest.drop n = ['\\', c]) (hc : c ∈ ['x', 'u', 'U']) :
    ∃ e, Pattern.parse cur.rest = .error e := by
  have hlength : n < cur.rest.length := List.length_lt_of_drop_ne_nil (by simp [hrest])
  obtain ⟨t, hruns, htail, -, hmodes⟩ := h.exists_initial (Nat.le_of_lt hlength) hnames
  have hcode : t.cur.rest = ['\\', c] := htail.trans hrest
  have hread : ∃ e, Escape.read .none t.groups t.cur = .error e := by
    have hdrop : t.cur.rest.drop 1 = [c] := by rw [hcode]; rfl
    have hbehind : (t.cur.advance 2).rest = [] := by rw [Cursor.advance_rest, hcode]; rfl
    simp only [List.mem_cons, List.not_mem_nil, or_false] at hc
    rcases hc with rfl | rfl | rfl
    all_goals
      simp only [Escape.read, hdrop, Escape.readHex, Escape.hexDigits?, hbehind]
      exact ⟨_, rfl⟩
  obtain ⟨e, hread⟩ := hread
  have hstep : t.step '\\' = .error e := by
    rw [step_of_modes hmodes, readAt_escape hcode, readEscape, hmodes, hread]
    rfl
  exact ⟨_, Pattern.parse_of_step_error hruns hcode hstep⟩

/-! ## Section 3: Bodies without an empty branch -/

/-- The bare codes, and why the null character may be one. -/
theorem cases_of_isBareCode {source : Text} {label : Label}
    (h : isBareCode source label = true) :
    (∃ c ∈ ['x', 'u', 'U'], source = ['\\', c]) ∨
      source = ['\\', '0'] ∧ ∃ char accepts, label = .literal char accepts ∧ char ≠ 0 := by
  cases label with
  | literal char accepts =>
    simp only [isBareCode, Bool.or_eq_true, Bool.and_eq_true, beq_iff_eq, bne_iff_ne,
      List.contains_iff_mem, List.mem_cons, List.not_mem_nil, or_false] at h
    rcases h with (rfl | rfl | rfl) | ⟨rfl, hchar⟩
    · exact .inl ⟨'x', by decide, by decide⟩
    · exact .inl ⟨'u', by decide, by decide⟩
    · exact .inl ⟨'U', by decide, by decide⟩
    · exact .inr ⟨by decide, char, accepts, rfl, hchar⟩
  | _ => exact Bool.noConfusion h

/-- An item that ends with a bare code is one. -/
theorem SpanAt.isBareCode (h : SpanAt text cur item n) (hends : item.endsBare text = true) :
    RegexInsight.isBareCode (item.textIn text) item.label = true := by
  have hitem := h.isItem
  obtain ⟨label, mark, children⟩ := item
  have hjoin : label.isJoin = false := by
    cases label <;> first | rfl | exact Bool.noConfusion hitem
  rw [Node.endsBare, hjoin, Bool.false_and, Bool.or_false] at hends
  exact hends

/-- After the items before it, an octal code without its digits is read as
    the null character. -/
theorem BodyAt.push_null (h : BodyAt ItemAt cur f n) (hrest : cur.rest.drop n = ['\\', '0']) :
    BodyAt ItemAt cur (f.push (.build 0 (Modes.none.literal 0) 0 0 [])) (n + 2) := by
  apply h.push
  have hplain : (Modes.none.literal 0).IsPlain .none := .literal (Nat.zero_le _)
  have hleaf : LeafAt ((cur.advance n).keep 2) (Modes.none.literal 0) 2 := leafAt_null hrest
  have hnull : ItemAt ((cur.advance n).keep 2) (.build 0 (Modes.none.literal 0) 0 0 []) 2 :=
    hleaf.itemAt hplain
  apply hnull.shorten
  show cur.rest.drop n <+: (cur.rest.drop n).take 2
  rw [hrest]
  exact List.prefix_refl _

/-- A frame is the one without its last item, and that item. -/
theorem push_of_items (h : f.items = last :: before) :
    f.itemNames = ({ f with items := before }.push last).itemNames ∧
      f.outlines = ({ f with items := before }.push last).outlines := by
  constructor
  · simp [Frame.itemNames, Frame.nodes, Frame.branches, Frame.push, h]
  · simp [Frame.outlines, Frame.branches, Frame.push, h]

theorem itemNames_push (f : Frame) (item : Node) :
    (f.push item).itemNames = f.itemNames ++ item.names := by
  simp [Frame.itemNames]

/-- A body whose last item is another character is not read from a text
    that ends with an octal code without its digits. -/
theorem BodyAt.ne_of_null {p : Pattern} {char : CodePoint} {accepts : CharSet}
    (h : BodyAt ItemAt cur f n) (hnames : f.itemNames.Nodup)
    (hrest : cur.rest.drop n = ['\\', '0']) (hlabel : item.label = .literal char accepts)
    (hchar : char ≠ 0) (hparse : Pattern.parse cur.rest = .ok p) :
    p.root.outline ≠ Shape.body (f.push item).outlines := by
  have hfull : cur.rest.length = n + 2 := by
    have hsome := congrArg List.length hrest
    rw [List.length_drop] at hsome
    have htwo : ['\\', '0'].length = 2 := rfl
    omega
  have hnames' : (f.push (.build 0 (Modes.none.literal 0) 0 0 [])).itemNames.Nodup := by
    rw [itemNames_push, names_leaf (.literal (Nat.zero_le _)), List.append_nil]
    exact hnames
  obtain ⟨q, hq, hnull⟩ := (h.push_null hrest).parse hfull hnames'
  rw [hparse] at hq
  obtain rfl := Except.ok.inj hq
  intro houtline
  have hsame := Node.label_of_outline (Frame.outline_eq_of_push (houtline.symm.trans hnull))
  rw [hlabel] at hsame
  exact hchar (Label.literal.inj hsame).1

section Body

variable (count stop after : Nat)

theorem BodyAt.textIn_eq (h : BodyAt (SpanAt text) (Cursor.ofOffset text i) f n)
    (hitems : f.items = last :: before) (hsome : ∀ items ∈ f.finished, items ≠ []) :
    (closeBody after (closeBranches count stop f.branches).1).1.textIn text =
      ((Cursor.ofOffset text i).keep (last.stop - i)).rest := by
  obtain ⟨hstart, hstop, -⟩ := h.body_span count stop hitems hsome after
  rw [Node.textIn, hstart, hstop]
  rfl

/-- A body that does not end with a bare code is read back. -/
theorem BodyAt.isRead (h : BodyAt (SpanAt text) (Cursor.ofOffset text i) f n)
    (hlength : i + n ≤ text.length) (hnames : f.itemNames.Nodup)
    (hitems : f.items = last :: before) (hsome : ∀ items ∈ f.finished, items ≠ [])
    (hends : last.endsBare text = false) :
    (closeBody after (closeBranches count stop f.branches).1).1.IsRead text := by
  have hrest : n ≤ (Cursor.ofOffset text i).rest.length := by
    rw [Cursor.ofOffset, List.length_drop]
    omega
  have hfull : ((Cursor.ofOffset text i).keep (last.stop - i)).rest.length = last.stop - i := by
    obtain ⟨j, k, rfl, hlast, -⟩ := h.exists_last hitems
    have hstop := hlast.stop_le
    have hpos : ((Cursor.ofOffset text i).advance j).pos = i + j := rfl
    apply Cursor.length_keep_ofOffset
    omega
  rw [Node.IsRead, h.textIn_eq count stop after hitems hsome, outline_closeBody]
  exact ((h.keep hrest hitems hends).imp SpanAt.reads).parse hfull hnames

/-- A body that ends with a bare code is not read back. -/
theorem BodyAt.not_isRead (h : BodyAt (SpanAt text) (Cursor.ofOffset text i) f n)
    (hlength : i + n ≤ text.length) (hnames : f.itemNames.Nodup)
    (hitems : f.items = last :: before) (hsome : ∀ items ∈ f.finished, items ≠ [])
    (hends : last.endsBare text = true) :
    ¬ (closeBody after (closeBranches count stop f.branches).1).1.IsRead text := by
  rw [Node.IsRead, h.textIn_eq count stop after hitems hsome, outline_closeBody]
  obtain ⟨j, k, rfl, hlast, hbefore⟩ := h.exists_last hitems
  obtain ⟨hpushed, houtlines⟩ := push_of_items hitems
  rw [hpushed, itemNames_push] at hnames
  rw [houtlines]
  have hstart : last.start = i + j := hlast.start
  have hle := hlast.start_le
  have hwidth : last.stop - i = j + (last.stop - last.start) := by omega
  -- what is left behind the other items is the code
  have hrest : ((Cursor.ofOffset text i).keep (last.stop - i)).rest.drop j = last.textIn text := by
    rw [hwidth, ← Cursor.advance_rest, Cursor.advance_keep, Cursor.advance_ofOffset, ← hstart]
    rfl
  have hcode := cases_of_isBareCode (hlast.isBareCode hends)
  rw [← hrest] at hcode
  generalize hcur : (Cursor.ofOffset text i).keep (last.stop - i) = cur at hrest hcode ⊢
  have hbefore' : BodyAt ItemAt cur { f with items := before } j := by
    refine (hbefore.shorten ?_ ?_ ?_).imp SpanAt.reads
    · rw [← hcur]; rfl
    · rw [← hcur]; exact List.take_prefix _ _
    · have hsome : (cur.rest.drop j).length = 2 := by
        rcases hcode with ⟨c, -, hcode⟩ | ⟨hcode, -⟩ <;> rw [hcode] <;> rfl
      rw [List.length_drop] at hsome
      omega
  rintro ⟨p, hparse, houtline⟩
  rcases hcode with ⟨c, hc, hcode⟩ | ⟨hcode, char, accepts, hlabel, hchar⟩
  · obtain ⟨e, hfails⟩ := hbefore'.parse_code (List.nodup_append.mp hnames).1 hcode hc
    rw [hfails] at hparse
    cases hparse
  · have hnull := hbefore'.ne_of_null (List.nodup_append.mp hnames).1 hcode hlabel hchar hparse
    exact hnull houtline

end Body

/-! ## Section 4: Bodies with an empty branch -/

/-- Bars follow on empty branches only, or on empty branches and then on
    others, of which the first is not empty. -/
theorem BarsAt.exists_suffix {P : Cursor → Node → Nat → Prop} (h : BarsAt P cur finished m) :
    finished = List.replicate m [] ∨
      ∃ k l first rest, m = k + l ∧ BarsAt P (cur.advance k) (rest ++ [first]) l ∧
        first ≠ [] ∧ finished = rest ++ [first] ++ List.replicate k [] := by
  induction h with
  | nil => exact .inl rfl
  | @cons finished items m n rest hbars hrow hbar ih =>
    rcases ih with rfl | ⟨k, l, first, others, rfl, hsuffix, hfirst, rfl⟩
    · by_cases hitems : items = []
      · subst hitems
        cases hrow
        exact .inl rfl
      · right
        refine ⟨m, n + 1, items.reverse, [], Nat.add_assoc m n 1, ?_,
          mt List.reverse_eq_nil_iff.mp hitems, rfl⟩
        rw [← Cursor.advance_advance] at hbar
        have hone : BarsAt P (cur.advance m) [items.reverse] (0 + n + 1) :=
          .cons .nil hrow (by rw [Nat.zero_add]; exact hbar)
        rwa [Nat.zero_add] at hone
    · right
      refine ⟨k, l + n + 1, first, items.reverse :: others, by omega, ?_, hfirst, rfl⟩
      rw [← Cursor.advance_advance] at hrow
      rw [Nat.add_assoc, ← Cursor.advance_advance] at hbar
      exact .cons hsuffix hrow hbar

/-- A body has empty branches only, or begins with empty branches, each of
    them a bar, before one that is not empty. -/
theorem BodyAt.exists_suffix {P : Cursor → Node → Nat → Prop} (h : BodyAt P cur f n) :
    (∀ items ∈ f.branches, items = []) ∨
      ∃ k l g first, n = k + l ∧ BodyAt P (cur.advance k) g l ∧
        f.branches = List.replicate k [] ++ g.branches ∧
        g.branches.head? = some first ∧ first ≠ [] := by
  obtain @⟨m, n, hbars, hrow⟩ := h
  rcases hbars.exists_suffix with hall | ⟨k, l, first, rest, rfl, hsuffix, hfirst, hfinished⟩
  · -- the branch that is still open is the only one with items, or none has any
    by_cases hitems : f.items = []
    · left
      intro items hmem
      rw [branches_eq, hall, hitems, List.reverse_replicate] at hmem
      rcases List.mem_append.mp hmem with hmem | hmem
      · exact (List.mem_replicate.mp hmem).2
      · exact List.mem_singleton.mp hmem
    · right
      have hbody : BodyAt P (cur.advance m) { f with finished := [] } (0 + n) := .intro .nil hrow
      rw [Nat.zero_add] at hbody
      refine ⟨m, n, { f with finished := [] }, f.items.reverse, rfl, hbody, ?_, rfl,
        mt List.reverse_eq_nil_iff.mp hitems⟩
      rw [branches_eq, hall, List.reverse_replicate]
      rfl
  · right
    rw [← Cursor.advance_advance] at hrow
    refine ⟨k, l + n, { f with finished := rest ++ [first] }, first, by omega,
      .intro hsuffix hrow, ?_, ?_, hfirst⟩
    · rw [branches_eq, branches_eq, hfinished]
      simp
    · rw [branches_eq]
      simp

section Body

variable (count stop after : Nat)

/-- The span over an empty branch and others starts with the first branch
    that is not empty, and ends where the frame closes. -/
theorem BodyAt.textIn_of_suffix {k l : Nat} {first : List Node}
    (hsuffix : BodyAt (SpanAt text) (Cursor.ofOffset text (i + k)) g l)
    (hsplit : f.branches = List.replicate k [] ++ g.branches)
    (hhead : g.branches.head? = some first) (hfirst : first ≠ []) (hmany : f.finished ≠ [])
    (hempty : [] ∈ f.branches) (hstop : i + k + l ≤ stop) :
    (closeBody after (closeBranches count stop f.branches).1).1.textIn text =
      slice text (i + k) stop := by
  have hpos : ∀ j, ((Cursor.ofOffset text (i + k)).advance j).pos = i + k + j := fun _ => rfl
  -- empty branches stand at the end, all others between the two places
  have hbounds : ∀ node ∈ (closeBranches count stop f.branches).1,
      i + k ≤ node.start ∧ node.stop ≤ stop := by
    intro node hnode
    obtain ⟨items, hmem, c, rfl⟩ := exists_of_mem_closeBranches hnode
    by_cases hitems : items = []
    · subst hitems
      show i + k ≤ stop ∧ stop ≤ stop
      omega
    · rw [hsplit] at hmem
      rcases List.mem_append.mp hmem with hmem | hmem
      · exact absurd (List.mem_replicate.mp hmem).2 hitems
      · obtain ⟨j, m, hrow, hle⟩ := hsuffix.exists_row items hmem
        obtain ⟨hfrom, hto⟩ := hrow.branch_bounds c stop hitems
        rw [hpos] at hfrom hto
        omega
  have hstart : leastStart (closeBranches count stop f.branches).1 = i + k := by
    have hmem : first ∈ f.branches := by
      rw [hsplit]
      exact List.mem_append_right _ (List.mem_of_head? hhead)
    obtain ⟨c, hnode⟩ := exists_mem_closeBranches count stop hmem
    obtain ⟨m, hrow⟩ := hsuffix.first_row hhead
    exact leastStart_eq hnode (hrow.branch_bounds c stop hfirst).1 fun n hn => (hbounds n hn).1
  have hend : greatestStop (closeBranches count stop f.branches).1 = stop := by
    obtain ⟨c, hnode⟩ := exists_mem_closeBranches count stop hempty
    exact greatestStop_eq hnode rfl fun n hn => (hbounds n hn).2
  rw [closeBody_of_finished _ _ hmany]
  show slice text (leastStart _) (greatestStop _) = _
  rw [hstart, hend]

/-- At the end of a text the span over several branches, the first of them
    not empty but another one, is the whole text. -/
theorem BodyAt.textIn_of_end
    (h : BodyAt (SpanAt text) (Cursor.ofOffset text 0) f text.length) (hmany : f.finished ≠ [])
    (hempty : [] ∈ f.branches) (hfirst : f.branches.head? ≠ some []) :
    (closeBody after (closeBranches count text.length f.branches).1).1.textIn text = text := by
  rcases h.exists_suffix with hall | ⟨k, l, g, first, hn, hsuffix, hsplit, hhead, hsome⟩
  · obtain ⟨items, rest, hbranches⟩ := List.exists_cons_of_ne_nil (List.ne_nil_of_mem hempty)
    rw [hbranches, List.head?_cons, hall items (hbranches ▸ List.mem_cons_self)] at hfirst
    exact absurd rfl hfirst
  · have hk : k = 0 := by
      cases k with
      | zero => rfl
      | succ k =>
        rw [hsplit, List.replicate_succ] at hfirst
        exact absurd rfl hfirst
    subst hk
    rw [Cursor.advance_ofOffset] at hsuffix
    rw [hsuffix.textIn_of_suffix count text.length after hsplit hhead hsome hmany hempty (by omega),
      slice, Nat.add_zero, List.drop_zero, Nat.sub_zero, List.take_length]

/-- The span over empty branches has no characters. -/
theorem textIn_of_all_empty (hall : ∀ items ∈ f.branches, items = []) :
    (closeBody after (closeBranches count stop f.branches).1).1.textIn text = [] := by
  have hspan : (closeBody after (closeBranches count stop f.branches).1).1.start = stop ∧
      (closeBody after (closeBranches count stop f.branches).1).1.stop = stop := by
    have hbounds : ∀ node ∈ (closeBranches count stop f.branches).1,
        node.start = stop ∧ node.stop = stop := by
      intro node hnode
      obtain ⟨items, hmem, c, rfl⟩ := exists_of_mem_closeBranches hnode
      rw [hall items hmem]
      exact ⟨rfl, rfl⟩
    obtain ⟨c, hnode⟩ : ∃ c, (closeBranch c stop f.items.reverse).1 ∈
        (closeBranches count stop f.branches).1 := by
      apply exists_mem_closeBranches
      rw [branches_eq]
      exact List.mem_append_right _ (List.mem_singleton_self _)
    by_cases hone : (closeBranches count stop f.branches).1.length = 1
    · obtain ⟨only, honly⟩ := List.length_eq_one_iff.mp hone
      rw [honly] at hbounds ⊢
      exact hbounds only List.mem_cons_self
    · rw [closeBody_of_many hone]
      exact ⟨leastStart_eq hnode (hbounds _ hnode).1 fun n hn => Nat.le_of_eq (hbounds n hn).1.symm,
        greatestStop_eq hnode (hbounds _ hnode).2 fun n hn => Nat.le_of_eq (hbounds n hn).2⟩
  rw [Node.textIn, hspan.1, hspan.2, slice, Nat.sub_self, List.take_zero]

/-- A text without characters is read as an empty branch. -/
theorem parse_nil : ∃ p, Pattern.parse [] = .ok p ∧ p.root.outline = .node .empty [] := by
  have hrow : RowAt ItemAt (Cursor.ofText []) [] 0 := .nil
  exact hrow.bodyAt.parse rfl List.nodup_nil

/-- The tree over several branches is that of an alternation. -/
theorem body_of_finished (h : f.finished ≠ []) :
    Shape.body f.outlines = .node .alternation f.outlines := by
  have hlength : f.outlines.length ≠ 1 := by
    rw [Frame.outlines, List.length_map, branches_eq, List.length_append]
    intro hone
    exact h (List.eq_nil_of_length_eq_zero (by simpa using hone))
  rcases houtlines : f.outlines with _ | ⟨first, _ | ⟨second, rest⟩⟩
  · rfl
  · rw [houtlines] at hlength
    exact absurd rfl hlength
  · rfl

/-- Empty branches alone are not read back as an alternation. -/
theorem not_isRead_of_all_empty (hmany : f.finished ≠ [])
    (hall : ∀ items ∈ f.branches, items = []) :
    ¬ (closeBody after (closeBranches count stop f.branches).1).1.IsRead text := by
  rw [Node.IsRead, textIn_of_all_empty count stop after hall, outline_closeBody,
    body_of_finished hmany]
  rintro ⟨p, hparse, houtline⟩
  obtain ⟨q, hq, hempty⟩ := parse_nil
  rw [hparse] at hq
  obtain rfl := Except.ok.inj hq
  rw [houtline] at hempty
  exact Label.noConfusion (Shape.node.inj hempty).1

theorem itemNames_of_split {k : Nat} (hsplit : f.branches = List.replicate k [] ++ g.branches) :
    f.itemNames = g.itemNames := by
  simp [Frame.itemNames, Frame.nodes, hsplit]

/-- In a group an alternation with an empty branch is not read back: its
    span has the end of the group. -/
theorem BodyAt.not_isRead_of_closing {rest : Text}
    (h : BodyAt (SpanAt text) (Cursor.ofOffset text i) f n) (hnames : f.itemNames.Nodup)
    (hbrace : (Cursor.ofOffset text (i + n)).rest = ')' :: rest) (hmany : f.finished ≠ [])
    (hempty : [] ∈ f.branches) :
    ¬ (closeBody after (closeBranches count (i + n + 1) f.branches).1).1.IsRead text := by
  rcases h.exists_suffix with hall | ⟨k, l, g, first, rfl, hsuffix, hsplit, hhead, hfirst⟩
  · exact not_isRead_of_all_empty count _ after hmany hall
  · rw [Cursor.advance_ofOffset] at hsuffix
    have htext := hsuffix.textIn_of_suffix count (i + (k + l) + 1) after hsplit hhead hfirst hmany
      hempty (by omega)
    have hslice : slice text (i + k) (i + (k + l) + 1) =
        ((Cursor.ofOffset text (i + k)).keep (l + 1)).rest := by
      have hwidth : i + (k + l) + 1 - (i + k) = l + 1 := by omega
      rw [slice, hwidth]
      rfl
    -- the text of the span goes one character too far
    have hclosing : ((Cursor.ofOffset text (i + k)).keep (l + 1)).rest.drop l = [')'] := by
      rw [← Cursor.advance_rest, Cursor.advance_keep, Cursor.advance_ofOffset, Nat.add_assoc,
        Cursor.keep, hbrace]
      rfl
    have hkept : BodyAt (SpanAt text) ((Cursor.ofOffset text (i + k)).keep (l + 1)) g l := by
      refine hsuffix.shorten rfl (List.take_prefix _ _) ?_
      exact Nat.le_of_lt (List.length_lt_of_drop_ne_nil (by simp [hclosing]))
    have hreads := hkept.imp SpanAt.reads
    rw [Node.IsRead, htext, hslice]
    rintro ⟨p, hparse, -⟩
    obtain ⟨e, hfails⟩ := hreads.parse_closing (itemNames_of_split hsplit ▸ hnames) hclosing
    rw [hfails] at hparse
    cases hparse

/-- The tree of a branch of items is no alternation. -/
theorem branch_ne_alternation {items : List Node} (h : ∀ n ∈ items, n.label.isItem = true)
    (bodies : List Shape) :
    Shape.branch (items.map Node.outline) ≠ .node .alternation bodies := by
  rcases items with _ | ⟨only, _ | ⟨second, rest⟩⟩
  · exact fun heq => Label.noConfusion (Shape.node.inj heq).1
  · intro heq
    have hitem := h only List.mem_cons_self
    obtain ⟨label, mark, children⟩ := only
    have hlabel : label.unnumbered = .alternation := (Shape.node.inj heq).1
    cases label <;> first | exact Label.noConfusion hlabel | exact Bool.noConfusion hitem
  · exact fun heq => Label.noConfusion (Shape.node.inj heq).1

theorem BodyAt.isItem (h : BodyAt (SpanAt text) cur f n) :
    ∀ items ∈ f.branches, ∀ item ∈ items, item.label.isItem = true := by
  intro items hmem item hitem
  obtain ⟨j, k, hrow, -⟩ := h.exists_row items hmem
  obtain ⟨j', k', hspan, -⟩ := hrow.exists_item item (List.mem_reverse.mpr hitem)
  exact hspan.isItem

/-- Without the empty branches at its start an alternation is another
    tree. -/
theorem body_ne_of_split {k : Nat} (hlater : 0 < k) (hmany : f.finished ≠ [])
    (hsplit : f.branches = List.replicate k [] ++ g.branches)
    (hitems : ∀ items ∈ g.branches, ∀ item ∈ items, item.label.isItem = true) :
    Shape.body f.outlines ≠ Shape.body g.outlines := by
  rw [body_of_finished hmany]
  intro hsame
  by_cases hone : g.finished = []
  · -- one branch is left, which is no alternation
    have hbranch : g.branches = [g.items.reverse] := by rw [branches_eq, hone]; rfl
    have houtlines : g.outlines = [Shape.branch (g.items.reverse.map Node.outline)] := by
      rw [Frame.outlines, hbranch]
      rfl
    rw [houtlines] at hsame
    refine branch_ne_alternation (hitems _ ?_) _ hsame.symm
    rw [hbranch]
    exact List.mem_cons_self
  · -- branches are left, but fewer of them
    rw [body_of_finished hone] at hsame
    have hlength := congrArg List.length (Shape.node.inj hsame).2
    rw [Frame.outlines, Frame.outlines, List.length_map, List.length_map, hsplit,
      List.length_append, List.length_replicate] at hlength
    omega

/-- At the end of a text an alternation is not read back if its first branch
    is empty: its span starts behind that branch. -/
theorem BodyAt.not_isRead_of_end
    (h : BodyAt (SpanAt text) (Cursor.ofOffset text 0) f text.length)
    (hnames : f.itemNames.Nodup) (hmany : f.finished ≠ [])
    (hempty : f.branches.head? = some []) :
    ¬ (closeBody after (closeBranches count text.length f.branches).1).1.IsRead text := by
  rcases h.exists_suffix with hall | ⟨k, l, g, first, hn, hsuffix, hsplit, hhead, hfirst⟩
  · exact not_isRead_of_all_empty count _ after hmany hall
  · rw [Cursor.advance_ofOffset] at hsuffix
    have htext := hsuffix.textIn_of_suffix count text.length after hsplit hhead hfirst hmany
      (List.mem_of_head? hempty) (by omega)
    have hslice : slice text (0 + k) text.length = (Cursor.ofOffset text (0 + k)).rest := by
      have hlength : (text.drop (0 + k)).length ≤ text.length - (0 + k) := by
        rw [List.length_drop]
      rw [slice, List.take_of_length_le hlength]
      rfl
    have hfull : (Cursor.ofOffset text (0 + k)).rest.length = l := by
      rw [Cursor.ofOffset, List.length_drop]
      omega
    -- the first branch is empty, so that the span leaves out its bar
    have hlater : 0 < k := by
      apply Nat.pos_of_ne_zero
      rintro rfl
      rw [hsplit, List.replicate_zero, List.nil_append, hhead] at hempty
      exact hfirst (Option.some.inj hempty)
    obtain ⟨q, hq, hless⟩ := (hsuffix.imp SpanAt.reads).parse hfull
      (itemNames_of_split hsplit ▸ hnames)
    rw [Node.IsRead, htext, hslice, outline_closeBody]
    rintro ⟨p, hparse, houtline⟩
    rw [hparse] at hq
    obtain rfl := Except.ok.inj hq
    exact body_ne_of_split hlater hmany hsplit hsuffix.isItem (houtline.symm.trans hless)

end Body

/-! ## Section 5: Everything in a body -/

section Body

variable (count stop after : Nat)

/-- A branch over items is empty only without items. -/
theorem eq_nil_of_label {items : List Node} (hitems : ∀ n ∈ items, n.label.isItem = true)
    (h : (closeBranch count stop items).1.label = .empty) : items = [] := by
  rcases items with _ | ⟨only, _ | ⟨second, rest⟩⟩
  · rfl
  · have hitem := hitems only List.mem_cons_self
    have hlabel : only.label = .empty := h
    rw [hlabel] at hitem
    exact Bool.noConfusion hitem
  · exact Label.noConfusion h

/-- A body is an alternation with an empty branch exactly when it has one of
    several branches that is empty. -/
theorem hasEmptyBranch_iff
    (hitems : ∀ items ∈ f.branches, ∀ item ∈ items, item.label.isItem = true) :
    (closeBody after (closeBranches count stop f.branches).1).1.hasEmptyBranch = true ↔
      f.finished ≠ [] ∧ [] ∈ f.branches := by
  constructor
  · intro h
    simp only [Node.hasEmptyBranch, Bool.and_eq_true, beq_iff_eq, List.any_eq_true] at h
    obtain ⟨hlabel, node, hnode, hnone⟩ := h
    -- a single branch is the body itself, and no item is an alternation
    have hmany : f.finished ≠ [] := by
      intro hone
      have hbranch : f.branches = [f.items.reverse] := by rw [branches_eq, hone]; rfl
      have hbody : (closeBody after (closeBranches count stop f.branches).1).1 =
          (closeBranch count stop f.items.reverse).1 := by
        rw [hbranch]
        rfl
      rw [hbody] at hlabel
      have houtline := outline_closeBranch count stop f.items.reverse
      rw [Node.outline_eq, hlabel] at houtline
      refine branch_ne_alternation (hitems _ ?_) _ houtline.symm
      rw [hbranch]
      exact List.mem_cons_self
    rw [closeBody_of_finished _ _ hmany] at hnode
    obtain ⟨items, hmem, c, rfl⟩ := exists_of_mem_closeBranches hnode
    rw [eq_nil_of_label c stop (hitems items hmem) hnone] at hmem
    exact ⟨hmany, hmem⟩
  · rintro ⟨hmany, hempty⟩
    obtain ⟨c, hnode⟩ := exists_mem_closeBranches count stop hempty
    rw [closeBody_of_finished _ _ hmany]
    exact List.any_eq_true.mpr ⟨_, hnode, rfl⟩

/-- The first of several branches is empty exactly when the alternation says
    so. -/
theorem startsEmpty_iff (hmany : f.finished ≠ [])
    (hitems : ∀ items ∈ f.branches, ∀ item ∈ items, item.label.isItem = true) :
    (closeBody after (closeBranches count stop f.branches).1).1.startsEmpty = true ↔
      f.branches.head? = some [] := by
  rw [closeBody_of_finished _ _ hmany]
  cases hbranches : f.branches with
  | nil => exact iff_of_false Bool.false_ne_true nofun
  | cons items rest =>
    show ((closeBranch count stop items).1.label == .empty) = true ↔ some items = some []
    rw [beq_iff_eq, Option.some.injEq]
    refine ⟨eq_nil_of_label count stop (hitems items (hbranches ▸ List.mem_cons_self)), ?_⟩
    rintro rfl
    rfl

/-- A body without an empty branch is faithful. -/
theorem BodyAt.isFaithful_of_some (h : BodyAt (SpanAt text) (Cursor.ofOffset text i) f n)
    (hlength : i + n ≤ text.length) (hsome : [] ∉ f.branches) :
    (closeBody after (closeBranches count stop f.branches).1).1.IsFaithful text := by
  intro hnames
  rw [names_closeBody] at hnames
  have hempty : (closeBody after (closeBranches count stop f.branches).1).1.hasEmptyBranch =
      false := by
    apply Bool.eq_false_iff.mpr
    intro hempty
    exact hsome ((hasEmptyBranch_iff count stop after h.isItem).mp hempty).2
  rw [branches_eq, List.mem_append, not_or, List.mem_reverse, List.mem_singleton] at hsome
  obtain ⟨last, before, hitems⟩ : ∃ last before, f.items = last :: before :=
    List.exists_cons_of_ne_nil fun hnil => hsome.2 (by rw [hnil]; rfl)
  have hbefore : ∀ items ∈ f.finished, items ≠ [] := by
    rintro items hmem rfl
    exact hsome.1 hmem
  obtain ⟨-, -, hends⟩ := h.body_span count stop hitems hbefore after
  rw [Node.isShown, hempty, hends]
  cases hlast : last.endsBare text with
  | false => simpa using h.isRead count stop after hlength hnames hitems hbefore hlast
  | true => simpa using h.not_isRead count stop after hlength hnames hitems hbefore hlast

/-- A branch is faithful. -/
theorem RowAt.isFaithful (h : RowAt (SpanAt text) (Cursor.ofOffset text i) items n)
    (hlength : i + n ≤ text.length) :
    (closeBranch count stop items.reverse).1.IsFaithful text := by
  by_cases hitems : items = []
  · subst hitems
    intro _
    have htext : (closeBranch count stop []).1.textIn text = [] := by
      show slice text stop stop = []
      rw [slice, Nat.sub_self, List.take_zero]
    rw [List.reverse_nil, Node.IsRead, htext]
    exact iff_of_true parse_nil rfl
  · refine h.bodyAt.isFaithful_of_some count stop 0 hlength ?_
    show [] ∉ [items.reverse]
    rw [List.mem_singleton]
    exact fun hnil => hitems (List.reverse_eq_nil_iff.mp hnil.symm)

/-- Everything in an item is faithful, as the item is a row of its own. -/
theorem SpanAt.isFaithful (h : SpanAt text (Cursor.ofOffset text i) item n)
    (hlength : i + n ≤ text.length) : ∀ k ∈ item.preorder, k.IsFaithful text := by
  intro k hk
  rcases Node.mem_preorder_iff.mp hk with rfl | ⟨child, hchild, hk⟩
  · have hone : RowAt (SpanAt text) (Cursor.ofOffset text i) [k] (0 + n) :=
      .cons .nil (by rw [Cursor.advance_zero]; exact h)
    exact hone.isFaithful 0 0 (by omega)
  · exact h.below child hchild k hk

/-- Everything in the branches of a body is faithful. -/
theorem BodyAt.isFaithful_branches (h : BodyAt (SpanAt text) (Cursor.ofOffset text i) f n)
    (hlength : i + n ≤ text.length) :
    ∀ node ∈ (closeBranches count stop f.branches).1, ∀ k ∈ node.preorder, k.IsFaithful text := by
  intro node hnode k hk
  obtain ⟨items, hmem, c, rfl⟩ := exists_of_mem_closeBranches hnode
  obtain ⟨j, l, hrow, hle⟩ := h.exists_row items hmem
  rw [Cursor.advance_ofOffset] at hrow
  rcases mem_preorder_closeBranch c stop hk with rfl | ⟨item, hitem, hk⟩
  · have hbranch := hrow.isFaithful c stop (by omega)
    rwa [List.reverse_reverse] at hbranch
  · obtain ⟨j', l', hspan, hle'⟩ := hrow.exists_item item (List.mem_reverse.mpr hitem)
    rw [Cursor.advance_ofOffset] at hspan
    exact hspan.isFaithful (by omega) k hk

theorem finished_of_many {count stop : Nat}
    (h : (closeBranches count stop f.branches).1.length ≠ 1) : f.finished ≠ [] := by
  intro hone
  rw [length_closeBranches, branches_eq, hone] at h
  exact h rfl

/-- Everything in the body of a group is faithful. -/
theorem BodyAt.isFaithful_of_closing {rest : Text}
    (h : BodyAt (SpanAt text) (Cursor.ofOffset text i) f n)
    (hbrace : (Cursor.ofOffset text (i + n)).rest = ')' :: rest) :
    ∀ k ∈ (closeBody after (closeBranches count (i + n + 1) f.branches).1).1.preorder,
      k.IsFaithful text := by
  have hlength : i + n ≤ text.length := by
    have hbehind : text.drop (i + n) = ')' :: rest := hbrace
    exact Nat.le_of_lt (List.length_lt_of_drop_ne_nil (by simp [hbehind]))
  intro k hk
  rcases mem_preorder_closeBody hk with ⟨rfl, hmany⟩ | ⟨node, hnode, hk⟩
  · by_cases hempty : [] ∈ f.branches
    · intro hnames
      rw [names_closeBody] at hnames
      have hjoined := finished_of_many hmany
      have hshown := (hasEmptyBranch_iff count (i + n + 1) after h.isItem).mpr
        ⟨hjoined, hempty⟩
      refine iff_of_false (h.not_isRead_of_closing count after hnames hbrace hjoined hempty) ?_
      simp [Node.isShown, hshown]
    · exact h.isFaithful_of_some count _ after hlength hempty
  · exact h.isFaithful_branches count _ hlength node hnode k hk

end Body

end ParserState

end RegexInsight
