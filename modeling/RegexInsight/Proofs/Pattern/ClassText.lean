import Mathlib
import RegexInsight.Proofs.CharSet.OtherCase
import RegexInsight.Proofs.Pattern.Locality
import RegexInsight.Proofs.Pattern.Reference

/-! # The text of a class

    Wherever a bracket class is read, its own text says all about it: the
    members, the negation and the traits.  Only case depends on the flags in
    force, and it is ignored before the class is negated.  `Denotes` ties
    the text to its members, and as a whole pattern the text is that one
    class. -/

namespace RegexInsight

namespace Bracket

variable {modes : Modes} {cur after : Cursor} {source rest : Text} {traits : ClassTraits}
  {members : CharSet}

/-! ## Section 1: Members and negation -/

/-- The characters of a class from those of its members. -/
def closed (modes : Modes) (negated : Bool) (members : CharSet) : CharSet :=
  if negated then (modes.accepts members).complement else modes.accepts members

/-- Case is ignored first, then the class is negated. -/
theorem contains_closed {negated : Bool} (h : members.IsCanonical) {c : CodePoint}
    (hc : c ≤ maxCodePoint) :
    (closed modes negated members).contains c = true ↔
      (UpToCase (modes.ignoreCase = true) (fun d => members.contains d = true) c ↔
        negated = false) := by
  unfold closed
  cases negated with
  | false => simp [Modes.contains_accepts]
  | true =>
    simp [CharSet.contains_complement (modes.isCanonical_accepts h) hc, Modes.contains_accepts]

/-- Without flags, a negated class has what its members do not have. -/
theorem contains_closed_none {negated : Bool} (h : members.IsCanonical) {c : CodePoint}
    (hc : c ≤ maxCodePoint) :
    (closed .none negated members).contains c ≠ negated ↔ members.contains c = true := by
  have hcase : ¬ Modes.none.ignoreCase = true := Bool.false_ne_true
  have hclosed : (closed .none negated members).contains c = true ↔ _ := contains_closed h hc
  rw [UpToCase, or_iff_left fun hboth => hcase hboth.1] at hclosed
  cases negated <;> simpa using hclosed

/-! ## Section 2: Texts of classes -/

/-- The text is a bracket class with these traits and these members. -/
structure Denotes (source : Text) (traits : ClassTraits) (members : CharSet) : Prop where
  opens : source.head? = some '['
  canonical : members.IsCanonical
  reads : ∀ modes, Bracket.read modes (.ofText source) =
    .ok (⟨.charClass source traits (closed modes traits.negated members), 0, source.length⟩,
      ⟨source.length, []⟩)

/-- The members of a class do not depend on the flags. -/
theorem exists_members {leaf : Escape.Leaf} (h : Bracket.read modes cur = .ok (leaf, after)) :
    ∃ traits members, members.IsCanonical ∧ ∀ modes', Bracket.read modes' cur =
      .ok (⟨.charClass (cur.rest.take (after.pos - cur.pos)) traits
        (closed modes' traits.negated members), cur.pos, after.pos⟩, after) := by
  obtain ⟨⟨members, stop⟩, hmembers, hpair⟩ := Read.bind_eq_ok.mp h
  obtain ⟨-, rfl⟩ := Prod.mk.inj (Except.ok.inj hpair)
  refine ⟨⟨(cur.advance 1).rest.head? == some '^', members.hasProperty, members.hasPosix⟩,
    .unionAll members.sets.reverse, CharSet.isCanonical_unionAll _, fun modes' => ?_⟩
  exact Read.bind_eq_ok.mpr ⟨_, hmembers, rfl⟩

/-- A class that is read somewhere is denoted by its own text. -/
theorem exists_denotes {leaf : Escape.Leaf} (hrest : cur.rest = '[' :: rest)
    (h : Bracket.read modes cur = .ok (leaf, after)) :
    ∃ source traits members, Denotes source traits members ∧ cur.rest = source ++ after.rest ∧
      after = cur.advance source.length ∧
      leaf = ⟨.charClass source traits (closed modes traits.negated members), cur.pos,
        cur.pos + source.length⟩ := by
  obtain ⟨n, hn, hlength, hafter, -, -, -⟩ := read_cut hrest h
  obtain ⟨traits, members, hcanonical, hreads⟩ := exists_members h
  have hsource : cur.rest.take (after.pos - cur.pos) = cur.rest.take n := by
    rw [hafter, Cursor.advance_pos, Nat.add_sub_cancel_left]
  have hsize : (cur.rest.take n).length = n := List.length_take_of_le hlength
  -- the text of the class is cut off behind its closing bracket
  have hcut : cur.Agrees (.ofText (cur.rest.take n)) n :=
    Cursor.Cut.agrees ⟨List.take_prefix n cur.rest, hsize.ge⟩
  refine ⟨cur.rest.take n, traits, members, ⟨?_, hcanonical, fun modes' => ?_⟩, ?_, ?_, ?_⟩
  · obtain ⟨k, rfl⟩ := Nat.exists_eq_add_of_lt hn
    simp [hrest]
  · have hread := hreads modes'
    rw [hsource] at hread
    obtain ⟨m, -, -, hafter', -, -, hcut'⟩ := read_cut hrest hread
    obtain rfl : m = n := by
      have hpos := congrArg Cursor.pos (hafter'.symm.trans hafter)
      simpa using hpos
    rw [hcut' _ hcut, hsize, Cursor.advance, Cursor.ofText, Nat.zero_add,
      List.drop_eq_nil_of_le hsize.le]
  · rw [hafter, Cursor.advance_rest, List.take_append_drop]
  · rw [hsize, hafter]
  · have hread := hreads modes
    rw [h, hsource, hafter, Except.ok.injEq, Prod.mk.injEq] at hread
    rw [hsize]
    exact hread.1

end Bracket

theorem ParserState.step_bracket {s : ParserState} {rest : Text}
    (hrest : s.cur.rest = '[' :: rest) : s.step '[' = s.readBracket := by
  rw [step_of_not_skipped (skipped?_eq_none hrest (by decide) (by decide)), readAt_bracket hrest]

namespace Pattern

open ParserState

variable {source : Text} {traits : ClassTraits} {members : CharSet}

/-- The text of a class is parsed as that class. -/
theorem parse_class (h : Bracket.Denotes source traits members) :
    Pattern.parse source = .ok ⟨source, .build 0
      (.charClass source traits (Bracket.closed .none traits.negated members)) 0 source.length [],
      0, []⟩ := by
  obtain ⟨rest, hrest⟩ := List.head?_eq_some_iff.mp h.opens
  have hcur : (initial source).cur.rest = '[' :: rest := hrest
  have hstep : (initial source).step '[' = .ok (((initial source).addLeaf
      ⟨.charClass source traits (Bracket.closed .none traits.negated members), 0,
        source.length⟩).moveTo ⟨source.length, []⟩) :=
    (step_bracket hcur).trans (Read.bind_eq_ok.mpr ⟨_, h.reads .none, rfl⟩)
  refine Pattern.parse_eq_ok_iff.mpr ⟨_, _, .single ⟨'[', rest, hcur, hstep⟩, rfl, ?_, rfl⟩
  exact finish_eq_ok_iff.mpr ⟨rfl, ⟨1, rfl⟩, rfl⟩

end Pattern

end RegexInsight
