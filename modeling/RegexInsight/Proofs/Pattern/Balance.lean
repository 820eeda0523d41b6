import Mathlib
import RegexInsight.Proofs.Pattern.RoundTrip

/-! # Balanced parentheses

    In a text of parentheses, bars and characters without a meaning of their
    own, nothing can go wrong but the parentheses.  Wherever the parser is in
    such a text, its open frames start at the parentheses that are open in
    what it has read.  So it stops at the first closing parenthesis that has
    no partner, or at the end on the last opening one that has none, and
    accepts the text if and only if every parenthesis has its partner. -/

namespace RegexInsight

/-! ## Section 1: Matching parentheses -/

/-- Every parenthesis of a text has its partner. -/
inductive Balanced : Text → Prop where
  | nil : Balanced []
  | char {c : Char} {rest : Text} (hopen : c ≠ '(') (hclose : c ≠ ')') (h : Balanced rest) :
      Balanced (c :: rest)
  | group {inner rest : Text} (hinner : Balanced inner) (hrest : Balanced rest) :
      Balanced ('(' :: (inner ++ ')' :: rest))

/-- The parentheses at `i` and `j` are partners: what stands between them is
    balanced. -/
def Partners (text : Text) (i j : Nat) : Prop :=
  ∃ before inner after, text = before ++ '(' :: (inner ++ ')' :: after) ∧ Balanced inner ∧
    i = before.length ∧ j = before.length + 1 + inner.length

/-- A closing parenthesis without a partner. -/
def IsUnopened (text : Text) (j : Nat) : Prop :=
  text[j]? = some ')' ∧ ∀ i, ¬ Partners text i j

/-- An opening parenthesis without a partner. -/
def IsUnclosed (text : Text) (i : Nat) : Prop :=
  text[i]? = some '(' ∧ ∀ j, ¬ Partners text i j

/-- The opening parentheses that are open behind a text, the nearest
    first. -/
inductive LeavesOpen : Text → List Nat → Prop where
  | balanced {text : Text} (h : Balanced text) : LeavesOpen text []
  | opening {before more : Text} {opens : List Nat} (hbefore : LeavesOpen before opens)
      (hmore : Balanced more) : LeavesOpen (before ++ '(' :: more) (before.length :: opens)

/-- Read from the left, a text never has more closing than opening
    parentheses. -/
def NeverCloses (text : Text) : Prop :=
  ∀ n, (text.take n).count ')' ≤ (text.take n).count '('

namespace NeverCloses

variable {text more : Text} {c : Char}

theorem nil : NeverCloses [] := fun n => by simp

theorem append (h : NeverCloses text) (hmore : NeverCloses more) : NeverCloses (text ++ more) := by
  intro n
  have hle := h n
  have hle' := hmore (n - text.length)
  rw [List.take_append, List.count_append, List.count_append]
  omega

theorem cons (hclose : c ≠ ')') (h : NeverCloses text) : NeverCloses (c :: text) := by
  intro n
  cases n with
  | zero => simp
  | succ n =>
    have hle := h n
    rw [List.take_succ_cons, List.count_cons_of_ne hclose, List.count_cons]
    omega

/-- The last parenthesis closes the first one. -/
theorem parenthesized (h : NeverCloses text) : NeverCloses ('(' :: (text ++ [')'])) := by
  intro n
  cases n with
  | zero => simp
  | succ n =>
    have hle := h n
    have hlast : ([')'].take (n - text.length)).count ')' ≤ 1 :=
      List.count_le_length.trans (by simp)
    simp only [List.take_succ_cons, List.take_append, List.count_cons, List.count_append]
    simp
    omega

end NeverCloses

namespace Balanced

variable {text more before : Text} {c : Char}

theorem append (h : Balanced text) (hmore : Balanced more) : Balanced (text ++ more) := by
  induction h with
  | nil => exact hmore
  | char hopen hclose _ ih => exact .char hopen hclose ih
  | @group inner rest hinner _ _ ih =>
    rw [List.cons_append, List.append_assoc]
    exact .group hinner ih

theorem singleton (hopen : c ≠ '(') (hclose : c ≠ ')') : Balanced [c] :=
  .char hopen hclose .nil

theorem parenthesized (h : Balanced text) : Balanced ('(' :: (text ++ [')'])) :=
  .group h .nil

theorem count_eq (h : Balanced text) : text.count '(' = text.count ')' := by
  induction h with
  | nil => rfl
  | char hopen hclose _ ih => simpa [hopen, hclose] using ih
  | group _ _ ihinner ihrest =>
    simp [ihinner, ihrest]
    omega

theorem neverCloses (h : Balanced text) : NeverCloses text := by
  induction h with
  | nil => exact .nil
  | char _ hclose _ ih => exact .cons hclose ih
  | @group inner rest _ _ ihinner ihrest =>
    have hsplit : '(' :: (inner ++ ')' :: rest) = '(' :: (inner ++ [')']) ++ rest := by simp
    rw [hsplit]
    exact ihinner.parenthesized.append ihrest

end Balanced

/-! ## Section 2: Partners -/

/-- The parenthesis at a position has a partner on one of its sides. -/
def IsMatched (text : Text) (k : Nat) : Prop :=
  (∃ j, Partners text k j) ∨ ∃ i, Partners text i k

namespace Partners

variable {text more : Text} {i j : Nat}

theorem opening (h : Partners text i j) : text[i]? = some '(' := by
  obtain ⟨before, inner, after, rfl, -, rfl, -⟩ := h
  simp

theorem closing (h : Partners text i j) : text[j]? = some ')' := by
  obtain ⟨before, inner, after, rfl, -, -, rfl⟩ := h
  rw [Nat.add_assoc, List.getElem?_append_right (by omega), Nat.add_sub_cancel_left, Nat.add_comm,
    List.getElem?_cons_succ]
  simp

theorem append (h : Partners text i j) (more : Text) : Partners (text ++ more) i j := by
  obtain ⟨before, inner, after, rfl, hinner, rfl, rfl⟩ := h
  exact ⟨before, inner, after ++ more, by simp, hinner, rfl, rfl⟩

theorem prepend (h : Partners text i j) (more : Text) :
    Partners (more ++ text) (more.length + i) (more.length + j) := by
  obtain ⟨before, inner, after, rfl, hinner, rfl, rfl⟩ := h
  refine ⟨more ++ before, inner, after, by simp, hinner, List.length_append.symm, ?_⟩
  rw [List.length_append]
  omega

end Partners

namespace IsMatched

variable {text : Text} {k : Nat}

theorem append (h : IsMatched text k) (more : Text) : IsMatched (text ++ more) k :=
  h.imp (fun ⟨j, h⟩ => ⟨j, h.append more⟩) fun ⟨i, h⟩ => ⟨i, h.append more⟩

theorem prepend (h : IsMatched text k) (more : Text) : IsMatched (more ++ text) (more.length + k) :=
  h.imp (fun ⟨_, h⟩ => ⟨_, h.prepend more⟩) fun ⟨_, h⟩ => ⟨_, h.prepend more⟩

theorem not_isUnopened (h : IsMatched text k) : ¬ IsUnopened text k := by
  rintro ⟨hclosing, hnone⟩
  rcases h with ⟨j, hpartners⟩ | ⟨i, hpartners⟩
  · rw [hpartners.opening] at hclosing
    exact absurd (Option.some.inj hclosing) (by decide)
  · exact hnone i hpartners

theorem not_isUnclosed (h : IsMatched text k) : ¬ IsUnclosed text k := by
  rintro ⟨hopening, hnone⟩
  rcases h with ⟨j, hpartners⟩ | ⟨i, hpartners⟩
  · exact hnone j hpartners
  · rw [hpartners.closing] at hopening
    exact absurd (Option.some.inj hopening) (by decide)

end IsMatched

/-- In a balanced text every parenthesis has its partner. -/
theorem Balanced.isMatched {text : Text} (h : Balanced text) {k : Nat} {c : Char}
    (hk : text[k]? = some c) (hc : c ∈ ['(', ')']) : IsMatched text k := by
  induction h generalizing k with
  | nil => simp at hk
  | @char d rest hopen hclose _ ih =>
    cases k with
    | zero =>
      obtain rfl := Option.some.inj hk
      simp [hopen, hclose] at hc
    | succ k =>
      rw [Nat.add_comm]
      exact (ih hk).prepend [d]
  | @group inner rest hinner _ ihinner ihrest =>
    have hpartners : Partners ('(' :: (inner ++ ')' :: rest)) 0 (0 + 1 + inner.length) :=
      ⟨[], inner, rest, rfl, hinner, rfl, rfl⟩
    cases k with
    | zero => exact .inl ⟨_, hpartners⟩
    | succ k =>
      rw [List.getElem?_cons_succ] at hk
      by_cases hlt : k < inner.length
      · rw [List.getElem?_append_left hlt] at hk
        have hmatched := ((ihinner hk).append (')' :: rest)).prepend ['(']
        rwa [Nat.add_comm]
      · obtain ⟨m, rfl⟩ := Nat.exists_eq_add_of_le (Nat.not_lt.mp hlt)
        rw [List.getElem?_append_right (Nat.le_add_right _ _), Nat.add_sub_cancel_left] at hk
        -- the closing parenthesis of the group, or something behind it
        cases m with
        | zero => exact .inr ⟨0, by rwa [Nat.zero_add, Nat.add_comm] at hpartners⟩
        | succ m =>
          have hmatched := (ihrest hk).prepend ('(' :: (inner ++ [')']))
          simpa [Nat.add_assoc, Nat.add_comm, Nat.add_left_comm] using hmatched

namespace LeavesOpen

variable {text more : Text} {opens : List Nat} {c : Char} {i k : Nat}

theorem append_balanced (h : LeavesOpen text opens) (hmore : Balanced more) :
    LeavesOpen (text ++ more) opens := by
  cases h with
  | balanced h => exact .balanced (h.append hmore)
  | opening hbefore hbetween =>
    rw [List.append_assoc, List.cons_append]
    exact .opening hbefore (hbetween.append hmore)

/-- A closing parenthesis closes the nearest one that is open. -/
theorem close (h : LeavesOpen text (i :: opens)) : LeavesOpen (text ++ [')']) opens := by
  cases h with
  | opening hbefore hmore =>
    rw [List.append_assoc, List.cons_append]
    exact hbefore.append_balanced hmore.parenthesized

theorem neverCloses (h : LeavesOpen text opens) : NeverCloses text := by
  induction h with
  | balanced h => exact h.neverCloses
  | opening _ hmore ih => exact ih.append (.cons (by decide) hmore.neverCloses)

theorem lt_length (h : LeavesOpen text opens) : ∀ i ∈ opens, i < text.length := by
  induction h with
  | balanced => simp
  | @opening before more opens _ _ ih =>
    intro i hi
    rw [List.length_append, List.length_cons]
    rcases List.mem_cons.mp hi with rfl | hi
    · omega
    · have hlt := ih i hi
      omega

/-- The nearest open parenthesis is the last one. -/
theorem lt_of_mem (h : LeavesOpen text (i :: opens)) : ∀ k ∈ opens, k < i := by
  cases h with
  | opening hbefore _ => exact hbefore.lt_length

/-- What stands behind an open parenthesis never closes it. -/
theorem neverCloses_drop (h : LeavesOpen text opens) :
    ∀ i ∈ opens, text[i]? = some '(' ∧ NeverCloses (text.drop (i + 1)) := by
  induction h with
  | balanced => simp
  | @opening before more opens hbefore hmore ih =>
    intro i hi
    rcases List.mem_cons.mp hi with rfl | hi
    · refine ⟨by simp, ?_⟩
      rw [List.append_cons, List.drop_left' (by simp)]
      exact hmore.neverCloses
    · obtain ⟨hopening, hnever⟩ := ih i hi
      have hlt := hbefore.lt_length i hi
      refine ⟨by rwa [List.getElem?_append_left hlt], ?_⟩
      rw [List.drop_append_of_le_length hlt]
      exact hnever.append (.cons (by decide) hmore.neverCloses)

/-- The parentheses that are open have no partner. -/
theorem isUnclosed (h : LeavesOpen text opens) : ∀ i ∈ opens, IsUnclosed text i := by
  intro i hi
  obtain ⟨hopening, hnever⟩ := h.neverCloses_drop i hi
  refine ⟨hopening, ?_⟩
  rintro j ⟨before, inner, after, rfl, hinner, rfl, -⟩
  have hdrop : (before ++ '(' :: (inner ++ ')' :: after)).drop (before.length + 1) =
      inner ++ ')' :: after := by
    rw [List.append_cons, List.drop_left' (by simp)]
  -- a partner would close more than was opened behind `i`
  rw [hdrop] at hnever
  have hle := hnever (inner.length + 1)
  have htake : (inner ++ ')' :: after).take (inner.length + 1) = inner ++ [')'] := by
    rw [List.take_append]
    simp
  rw [htake, List.count_append, List.count_append, hinner.count_eq] at hle
  simp at hle

/-- All others have one. -/
theorem isMatched (h : LeavesOpen text opens) (hk : text[k]? = some c) (hc : c ∈ ['(', ')']) :
    k ∈ opens ∨ IsMatched text k := by
  induction h generalizing k with
  | balanced h => exact .inr (h.isMatched hk hc)
  | @opening before more opens _ hmore ih =>
    by_cases hlt : k < before.length
    · rw [List.getElem?_append_left hlt] at hk
      exact (ih hk).imp (List.mem_cons_of_mem _) fun hmatched => hmatched.append _
    · obtain ⟨m, rfl⟩ := Nat.exists_eq_add_of_le (Nat.not_lt.mp hlt)
      rw [List.getElem?_append_right (Nat.le_add_right _ _), Nat.add_sub_cancel_left] at hk
      cases m with
      | zero => exact .inl List.mem_cons_self
      | succ m =>
        rw [List.getElem?_cons_succ] at hk
        have hmatched := ((hmore.isMatched hk hc).prepend ['(']).prepend before
        rw [List.length_singleton, Nat.add_comm 1] at hmatched
        exact .inr hmatched

theorem not_isUnopened (h : LeavesOpen text opens) (j : Nat) : ¬ IsUnopened text j := by
  intro hunopened
  rcases h.isMatched hunopened.1 (by decide) with hmem | hmatched
  · have hopening := (h.isUnclosed j hmem).1
    rw [hunopened.1] at hopening
    exact absurd (Option.some.inj hopening) (by decide)
  · exact hmatched.not_isUnopened hunopened

theorem mem_of_isUnclosed (h : LeavesOpen text opens) (hi : IsUnclosed text i) : i ∈ opens :=
  (h.isMatched hi.1 (by decide)).resolve_right fun hmatched => hmatched.not_isUnclosed hi

end LeavesOpen

/-- A closing parenthesis behind a balanced text is the first one that has no
    partner. -/
theorem Balanced.isUnopened {before : Text} (h : Balanced before) (after : Text) :
    IsUnopened (before ++ ')' :: after) before.length ∧
      ∀ k < before.length, ¬ IsUnopened (before ++ ')' :: after) k := by
  constructor
  · refine ⟨by simp, ?_⟩
    rintro i ⟨front, inner, behind, htext, hinner, -, hlength⟩
    have hsplit : front ++ '(' :: inner ++ ')' :: behind = before ++ ')' :: after := by
      rw [htext]
      simp
    obtain ⟨rfl, -⟩ := List.append_inj hsplit (by simp [hlength]; omega)
    -- the text in front has one opening parenthesis too few
    have hcount := h.count_eq
    have hle := h.neverCloses front.length
    rw [List.take_left] at hle
    simp [hinner.count_eq] at hcount
    omega
  · intro k hk hunopened
    have hclosing := hunopened.1
    rw [List.getElem?_append_left hk] at hclosing
    exact ((h.isMatched hclosing (by decide)).append _).not_isUnopened hunopened

/-! ## Section 3: Reading -/

/-- Parentheses, bars and characters without a meaning of their own. -/
def IsParenthesized (text : Text) : Prop :=
  ∀ c ∈ text, c ∈ ['(', ')', '|'] ∨ c ∉ Literal.special

namespace ParserState

variable {s : ParserState} {before rest : Text} {opens : List Nat} {c : Char}

/-- The parser has read `before`, and its frames start at the parentheses
    that are open. -/
structure StandsBehind (s : ParserState) (before rest : Text) (opens : List Nat) : Prop where
  cur : s.cur = ⟨before.length, rest⟩
  groups : s.groups = before.count '('
  references : s.references = []
  starts : (s.frame :: s.outer).map Frame.start = opens ++ [0]
  frames : ∀ f ∈ s.frame :: s.outer,
    f.modes = .none ∧ ∀ condition, f.opener ≠ .conditional condition
  opens : LeavesOpen before opens

namespace StandsBehind

theorem initial (text : Text) : (initial text).StandsBehind [] text [] where
  cur := rfl
  groups := rfl
  references := rfl
  starts := rfl
  frames := by
    intro f hf
    obtain rfl := List.mem_singleton.mp hf
    exact ⟨rfl, nofun⟩
  opens := .balanced .nil

theorem modes (h : s.StandsBehind before rest opens) : s.frame.modes = .none :=
  (h.frames s.frame List.mem_cons_self).1

theorem rest_eq (h : s.StandsBehind before rest opens) : s.cur.rest = rest := by
  rw [h.cur]

theorem advance (h : s.StandsBehind before (c :: rest) opens) :
    s.cur.advance 1 = ⟨(before ++ [c]).length, rest⟩ := by
  rw [h.cur, List.length_append]
  rfl

/-- An open frame closes. -/
theorem exists_close (h : s.StandsBehind before rest opens) (stop : Nat) :
    ∃ node count, s.frame.close s.count stop = .ok (node, count) := by
  have hopener := (h.frames s.frame List.mem_cons_self).2
  obtain ⟨node, count, hclose, -⟩ := s.frame.exists_close s.count stop
    fun condition hcondition => absurd hcondition (hopener condition)
  exact ⟨node, count, hclose⟩

/-- At an opening parenthesis a group opens. -/
theorem next_open (h : s.StandsBehind before ('(' :: rest) opens) (hrest : '?' ∉ rest.head?) :
    ∃ s', Next s s' ∧ s'.StandsBehind (before ++ ['(']) rest (before.length :: opens) := by
  have hread : s.readAt '(' = .ok (s.enterCapturing s.cur.pos (s.cur.advance 1)) := by
    show s.readOpening = _
    unfold readOpening
    rw [h.rest_eq]
    dsimp only [List.drop_succ_cons, List.drop_zero]
    split
    next heq =>
      obtain rfl : rest = _ := heq
      simp at hrest
    next => rfl
  refine ⟨_, next_of_readAt h.modes h.rest_eq hread, h.advance, ?groups, h.references, ?starts,
    ?frames, .opening h.opens .nil⟩
  case groups =>
    rw [List.count_append, ← h.groups]
    rfl
  case starts =>
    -- the new frame starts at the parenthesis, in front of all that were open
    have hstarts : s.cur.pos :: (s.frame :: s.outer).map Frame.start =
        before.length :: (opens ++ [0]) := by
      rw [h.starts, h.cur]
    exact hstarts
  case frames =>
    intro f hf
    rcases List.mem_cons.mp hf with rfl | hf
    · exact ⟨h.modes, nofun⟩
    · exact h.frames f hf

/-- At a closing parenthesis the nearest open group is closed. -/
theorem next_close {i : Nat} (h : s.StandsBehind before (')' :: rest) (i :: opens)) :
    ∃ s', Next s s' ∧ s'.StandsBehind (before ++ [')']) rest opens := by
  -- the frame of the open parenthesis stands over another one
  obtain ⟨frame, outer, houter⟩ : ∃ frame outer, s.outer = frame :: outer := by
    have hstarts := h.starts
    cases houter : s.outer with
    | nil => simp [houter] at hstarts
    | cons frame outer => exact ⟨frame, outer, rfl⟩
  obtain ⟨node, count, hclose⟩ := h.exists_close (s.cur.advance 1).pos
  have hnext := next_closing h.rest_eq houter hclose
  have hstarts := h.starts
  have hframes := h.frames
  rw [houter] at hstarts hframes
  obtain ⟨-, hstarts⟩ := List.cons.inj hstarts
  obtain ⟨-, hframes⟩ := List.forall_mem_cons.mp hframes
  refine ⟨_, hnext, h.advance, ?groups, h.references, hstarts, ?frames, h.opens.close⟩
  case groups =>
    rw [List.count_append, ← h.groups]
    rfl
  case frames =>
    exact List.forall_mem_cons.mpr (List.forall_mem_cons.mp hframes)

/-- A closing parenthesis outside all groups is a fault. -/
theorem step_close (h : s.StandsBehind before (')' :: rest) []) :
    s.step ')' = .error (.fault .unbalancedParenthesis before.length) := by
  have houter : s.outer = [] := by
    have hlength := congrArg List.length h.starts
    simpa using hlength
  rw [step_unbalanced h.rest_eq houter, h.cur]
  rfl

/-- A bar or a character without a meaning of its own leaves the frames
    open. -/
theorem next_char (h : s.StandsBehind before (c :: rest) opens) (hopen : c ≠ '(') (hclose : c ≠ ')')
    (hc : c = '|' ∨ c ∉ Literal.special) :
    ∃ s', Next s s' ∧ s'.StandsBehind (before ++ [c]) rest opens := by
  have hgroups : s.groups = (before ++ [c]).count '(' := by
    rw [List.count_append, List.count_singleton, h.groups]
    simp [hopen]
  have hopens := h.opens.append_balanced (.singleton hopen hclose)
  rcases hc with rfl | hc
  · exact ⟨_, next_of_readAt h.modes h.rest_eq rfl, h.advance, hgroups, h.references, h.starts,
      List.forall_mem_cons.mpr (List.forall_mem_cons.mp h.frames), hopens⟩
  · exact ⟨_, next_of_readAt h.modes h.rest_eq (readAt_of_not_special h.rest_eq hc), h.advance,
      hgroups, h.references, h.starts,
      List.forall_mem_cons.mpr (List.forall_mem_cons.mp h.frames), hopens⟩

end StandsBehind

/-- As long as every closing parenthesis has its partner, the parser comes
    along; at the first one that has none it stops. -/
theorem exists_standsBehind {text : Text} (htext : IsParenthesized text)
    (hsplit : text = before ++ rest) :
    (∃ s opens, (initial text).RunsTo s ∧ s.StandsBehind before rest opens) ∨
    ∃ front behind, text = front ++ ')' :: behind ∧ Balanced front ∧
      Pattern.parse text = .error (.malformed ⟨.unbalancedParenthesis, front.length, text⟩) := by
  induction before using List.reverseRecOn generalizing rest with
  | nil =>
    obtain rfl : text = rest := hsplit
    exact .inl ⟨_, _, .refl, .initial text⟩
  | append_singleton before c ih =>
    rw [List.append_assoc, List.singleton_append] at hsplit
    refine (ih hsplit).elim ?_ .inr
    rintro ⟨s, opens, hruns, hstands⟩
    have hchar : c ∈ ['(', ')', '|'] ∨ c ∉ Literal.special := htext c (by simp [hsplit])
    have hgoOn : ∀ {opens'}, (∃ s', Next s s' ∧ s'.StandsBehind (before ++ [c]) rest opens') →
        ∃ s opens, (initial text).RunsTo s ∧ s.StandsBehind (before ++ [c]) rest opens :=
      fun ⟨s', hnext, hstands'⟩ => ⟨s', _, hruns.tail hnext, hstands'⟩
    by_cases hopen : c = '('
    · -- no question mark follows, as it has a meaning of its own
      subst hopen
      refine .inl (hgoOn (hstands.next_open fun hquestion => ?_))
      have hmem : '?' ∈ text := by
        rw [hsplit]
        exact List.mem_append_right _ (List.mem_cons_of_mem _ (List.mem_of_mem_head? hquestion))
      exact absurd (htext _ hmem) (by decide)
    by_cases hclose : c = ')'
    · -- what is open decides whether there is a partner
      subst hclose
      cases opens with
      | nil =>
        refine .inr ⟨before, rest, hsplit, ?_, ?_⟩
        · cases hstands.opens with
          | balanced h => exact h
        · exact Pattern.parse_of_step_error hruns hstands.rest_eq hstands.step_close
      | cons => exact .inl (hgoOn hstands.next_close)
    · refine .inl (hgoOn (hstands.next_char hopen hclose (hchar.imp_left fun hmem => ?_)))
      simpa [hopen, hclose] using hmem

end ParserState

namespace Pattern

open ParserState

variable {text : Text}

/-- What the parser says of a text: it stops behind a balanced part, or what
    is open at the end decides. -/
inductive Verdict (text : Text) : Prop where
  | accepted {p : Pattern} (h : Balanced text) (hparse : Pattern.parse text = .ok p)
      (hcount : p.groupCount = text.count '(')
  | unclosed {i : Nat} {opens : List Nat} (h : LeavesOpen text (i :: opens))
      (hparse : Pattern.parse text = .error (.malformed ⟨.unclosedGroup, i, text⟩))
  | unopened {front behind : Text} (hsplit : text = front ++ ')' :: behind) (h : Balanced front)
      (hparse : Pattern.parse text =
        .error (.malformed ⟨.unbalancedParenthesis, front.length, text⟩))

theorem verdict_of_standsBehind {s : ParserState} {opens : List Nat}
    (hruns : (initial text).RunsTo s) (h : s.StandsBehind text [] opens) : Verdict text := by
  cases opens with
  | nil =>
    have houter : s.outer = [] := by
      have hlength := congrArg List.length h.starts
      simpa using hlength
    obtain ⟨root, count, hclose⟩ := h.exists_close s.cur.pos
    have hcheck : s.checkReferences = .ok () := by
      rw [checkReferences, h.references]
      rfl
    have hfinish := finish_eq_ok_iff.mpr ⟨houter, ⟨count, hclose⟩, hcheck⟩
    have hparse := Pattern.parse_eq_ok_iff.mpr ⟨s, root, hruns, h.rest_eq, hfinish, rfl⟩
    cases h.opens with
    | balanced hbalanced => exact .accepted hbalanced hparse h.groups
  | cons i opens =>
    have hstarts := h.starts
    rw [List.map_cons, List.cons_append] at hstarts
    obtain ⟨hstart, houter⟩ := List.cons.inj hstarts
    -- the frame of the last open parenthesis is still there
    have hfinish : s.finish = .error (.fault .unclosedGroup i) := by
      unfold finish
      split
      next => rw [hstart]; rfl
      next hnone => simp [hnone] at houter
    exact .unclosed h.opens (parse_of_finish_error hruns h.rest_eq hfinish)

theorem verdict (htext : IsParenthesized text) : Verdict text := by
  rcases exists_standsBehind htext (List.append_nil text).symm with
    ⟨s, opens, hruns, hstands⟩ | ⟨front, behind, hsplit, hfront, hparse⟩
  · exact verdict_of_standsBehind hruns hstands
  · exact .unopened hsplit hfront hparse

/-- Whether a text of parentheses, bars and characters without a meaning of
    their own is a pattern, and where it is at fault, depends on its
    parentheses alone: the first closing one without a partner is the fault,
    and if there is none, the last opening one. -/
theorem parse_of_parenthesized (htext : IsParenthesized text) :
    ((∃ p, Pattern.parse text = .ok p) ↔ Balanced text) ∧
    (∀ p, Pattern.parse text = .ok p → p.groupCount = text.count '(') ∧
    (∀ j, IsUnopened text j → (∀ k < j, ¬ IsUnopened text k) →
      Pattern.parse text = .error (.malformed ⟨.unbalancedParenthesis, j, text⟩)) ∧
    ((∀ j, ¬ IsUnopened text j) → ∀ i, IsUnclosed text i → (∀ k > i, ¬ IsUnclosed text k) →
      Pattern.parse text = .error (.malformed ⟨.unclosedGroup, i, text⟩)) := by
  cases verdict htext with
  | @accepted p h hparse hcount =>
    refine ⟨⟨fun _ => h, fun _ => ⟨p, hparse⟩⟩, fun q hq => ?_, fun j hj => ?_, fun _ i hi => ?_⟩
    · obtain rfl := Except.ok.inj (hparse.symm.trans hq)
      exact hcount
    · exact absurd hj ((LeavesOpen.balanced h).not_isUnopened j)
    · nomatch (LeavesOpen.balanced h).mem_of_isUnclosed hi
  | @unclosed i opens h hparse =>
    have hlast := h.isUnclosed i List.mem_cons_self
    refine ⟨⟨fun ⟨p, hp⟩ => ?_, fun hbalanced => ?_⟩, fun p hp => ?_,
      fun j hj => absurd hj (h.not_isUnopened j), fun _ k hk hgreatest => ?_⟩
    · nomatch hparse.symm.trans hp
    · nomatch (LeavesOpen.balanced hbalanced).mem_of_isUnclosed hlast
    · nomatch hparse.symm.trans hp
    · -- the last opening parenthesis that is left is the first one on the stack
      obtain rfl : k = i := by
        rcases List.mem_cons.mp (h.mem_of_isUnclosed hk) with heq | hmem
        · exact heq
        · exact absurd hlast (hgreatest i (h.lt_of_mem k hmem))
      exact hparse
  | @unopened front behind hsplit h hparse =>
    obtain ⟨hfirst, hleast⟩ := h.isUnopened behind
    rw [← hsplit] at hfirst hleast
    refine ⟨⟨fun ⟨p, hp⟩ => ?_, fun hbalanced => ?_⟩, fun p hp => ?_, fun j hj hleast' => ?_,
      fun hnone => absurd hfirst (hnone _)⟩
    · nomatch hparse.symm.trans hp
    · exact absurd hfirst ((LeavesOpen.balanced hbalanced).not_isUnopened _)
    · nomatch hparse.symm.trans hp
    · -- the parser stops at the first closing parenthesis without a partner
      obtain rfl : j = front.length := by
        rcases Nat.lt_trichotomy j front.length with hlt | heq | hgt
        · exact absurd hj (hleast j hlt)
        · exact heq
        · exact absurd hfirst (hleast' _ hgt)
      exact hparse

/-- `a(b|)c` is balanced, in `a)(` the first parenthesis has no partner, and
    in `((a)(` the last one has none. -/
theorem parse_of_parenthesized_of_short :
    (∃ p, Pattern.parse "a(b|)c".toList = .ok p ∧ p.groupCount = 1) ∧
    Pattern.parse "a)(".toList =
      .error (.malformed ⟨.unbalancedParenthesis, 1, "a)(".toList⟩) ∧
    Pattern.parse "((a)(".toList = .error (.malformed ⟨.unclosedGroup, 4, "((a)(".toList⟩) := by
  have hchars : ∀ text ∈ ["a(b|)c".toList, "a)(".toList, "((a)(".toList], IsParenthesized text := by
    simp [IsParenthesized, Literal.special]
  have hletter : Balanced ['a'] := .singleton (by decide) (by decide)
  refine ⟨?balanced, ?unopened, ?unclosed⟩
  case balanced =>
    obtain ⟨hverdict, hcount, -⟩ :=
      parse_of_parenthesized (hchars "a(b|)c".toList (by simp))
    have hinner : Balanced ['b', '|'] :=
      .char (by decide) (by decide) (.singleton (by decide) (by decide))
    have hlast : Balanced ['c'] := .singleton (by decide) (by decide)
    obtain ⟨p, hp⟩ := hverdict.mpr (.char (by decide) (by decide) (.group hinner hlast))
    exact ⟨p, hp, hcount p hp⟩
  case unopened =>
    obtain ⟨-, -, hunopened, -⟩ := parse_of_parenthesized (hchars "a)(".toList (by simp))
    obtain ⟨hfirst, hleast⟩ := hletter.isUnopened ['(']
    exact hunopened 1 hfirst hleast
  case unclosed =>
    obtain ⟨-, -, -, hunclosed⟩ := parse_of_parenthesized (hchars "((a)(".toList (by simp))
    -- the second parenthesis has its partner, the first and the third do not
    have hbefore : LeavesOpen "((a)".toList [0] :=
      .opening (.balanced .nil) hletter.parenthesized
    have hopens : LeavesOpen "((a)(".toList [4, 0] := .opening hbefore .nil
    refine hunclosed hopens.not_isUnopened 4 (hopens.isUnclosed 4 (by decide)) fun k hk hlast => ?_
    rcases List.mem_cons.mp (hopens.mem_of_isUnclosed hlast) with rfl | hmem
    · exact Nat.lt_irrefl _ hk
    · exact Nat.not_lt.mpr (Nat.le_of_lt (hopens.lt_of_mem k hmem)) hk

end Pattern

end RegexInsight
