import Mathlib
import RegexInsight.Pattern.Modes
import RegexInsight.Proofs.CharSet.Membership

/-! # Canonical form of character sets

    Whatever the intervals it is built from, a set that is sorted and fused
    lists non-empty intervals in ascending order, with a gap between any
    two of them.  The gaps of such a set are a set in the same form.  For
    sets in ascending order the sweep that tests for overlap is exact: an
    interval that it drops ends before everything that remains on the
    other side. -/

namespace RegexInsight

/-! ## Section 1: Forms of interval lists -/

/-- Intervals in ascending order, none of them empty and no two
    overlapping. -/
structure Ascending (intervals : List Interval) : Prop where
  ordered : ∀ i ∈ intervals, i.lo ≤ i.hi
  disjoint : intervals.Pairwise fun i j => i.hi < j.lo

/-- Intervals in ascending order, none of them empty and no two overlapping
    or adjacent. -/
structure Canonical (intervals : List Interval) : Prop where
  ordered : ∀ i ∈ intervals, i.lo ≤ i.hi
  apart : intervals.Pairwise fun i j => i.hi + 1 < j.lo

/-- A set whose intervals are in canonical form. -/
def CharSet.IsCanonical (a : CharSet) : Prop :=
  Canonical a.intervals

variable {i : Interval} {rest : List Interval}

theorem canonical_nil : Canonical [] :=
  ⟨nofun, .nil⟩

theorem ascending_cons :
    Ascending (i :: rest) ↔ i.lo ≤ i.hi ∧ (∀ j ∈ rest, i.hi < j.lo) ∧ Ascending rest := by
  constructor
  · intro h
    obtain ⟨hi, hrest⟩ := List.forall_mem_cons.mp h.ordered
    obtain ⟨hbelow, hpairs⟩ := List.pairwise_cons.mp h.disjoint
    exact ⟨hi, hbelow, hrest, hpairs⟩
  · rintro ⟨hi, hbelow, hrest, hpairs⟩
    exact ⟨List.forall_mem_cons.mpr ⟨hi, hrest⟩, List.pairwise_cons.mpr ⟨hbelow, hpairs⟩⟩

theorem canonical_cons :
    Canonical (i :: rest) ↔ i.lo ≤ i.hi ∧ (∀ j ∈ rest, i.hi + 1 < j.lo) ∧ Canonical rest := by
  constructor
  · intro h
    obtain ⟨hi, hrest⟩ := List.forall_mem_cons.mp h.ordered
    obtain ⟨hbelow, hpairs⟩ := List.pairwise_cons.mp h.apart
    exact ⟨hi, hbelow, hrest, hpairs⟩
  · rintro ⟨hi, hbelow, hrest, hpairs⟩
    exact ⟨List.forall_mem_cons.mpr ⟨hi, hrest⟩, List.pairwise_cons.mpr ⟨hbelow, hpairs⟩⟩

theorem Canonical.ascending {intervals : List Interval} (h : Canonical intervals) :
    Ascending intervals where
  ordered := h.ordered
  disjoint := h.apart.imp fun {a b} hab => by
    dsimp only [CodePoint] at *
    omega

namespace CharSet

/-! ## Section 2: Sets that are sorted and fused -/

theorem canonical_fuse {current : Interval} {rest : List Interval}
    (hordered : ∀ i ∈ current :: rest, i.lo ≤ i.hi)
    (hsorted : (current :: rest).Pairwise fun i j => i.lo ≤ j.lo) :
    Canonical (fuse current rest) ∧ ∀ i ∈ fuse current rest, current.lo ≤ i.lo := by
  induction rest generalizing current with
  | nil =>
    have hcurrent := hordered current List.mem_cons_self
    refine ⟨canonical_cons.mpr ⟨hcurrent, nofun, canonical_nil⟩, ?_⟩
    intro i hi
    obtain rfl := List.mem_singleton.mp hi
    exact Nat.le_refl _
  | cons next rest ih =>
    obtain ⟨hcurrent, hordered⟩ := List.forall_mem_cons.mp hordered
    obtain ⟨hbelow, hsorted⟩ := List.pairwise_cons.mp hsorted
    have hnext : current.lo ≤ next.lo := hbelow next List.mem_cons_self
    unfold fuse
    split
    next htouch =>
      -- the joined interval starts where the current one does
      apply ih
      · refine List.forall_mem_cons.mpr ⟨?_, (List.forall_mem_cons.mp hordered).2⟩
        exact Nat.le_trans hcurrent (Nat.le_max_left _ _)
      · refine List.pairwise_cons.mpr ⟨?_, (List.pairwise_cons.mp hsorted).2⟩
        intro i hi
        exact hbelow i (List.mem_cons_of_mem _ hi)
    next hgap =>
      obtain ⟨hcanonical, habove⟩ := ih hordered hsorted
      constructor
      · refine canonical_cons.mpr ⟨hcurrent, ?_, hcanonical⟩
        intro i hi
        have hle := habove i hi
        dsimp only [CodePoint] at *
        omega
      · refine List.forall_mem_cons.mpr ⟨Nat.le_refl _, ?_⟩
        intro i hi
        exact Nat.le_trans hnext (habove i hi)

theorem isCanonical_ofIntervals (intervals : List Interval) :
    (ofIntervals intervals).IsCanonical := by
  have hordered : ∀ i ∈ (intervals.filter fun i => i.lo ≤ i.hi).mergeSort Interval.le,
      i.lo ≤ i.hi := by
    intro i hi
    have hmem := (List.mergeSort_perm _ _).mem_iff.mp hi
    simpa using (List.mem_filter.mp hmem).2
  have hsorted := pairwise_mergeSort_lo (intervals.filter fun i => i.lo ≤ i.hi)
  unfold IsCanonical ofIntervals
  dsimp only
  cases hlist : (intervals.filter fun i => i.lo ≤ i.hi).mergeSort Interval.le with
  | nil => exact canonical_nil
  | cons first rest =>
    rw [hlist] at hordered hsorted
    exact (canonical_fuse hordered hsorted).1

theorem isCanonical_everything : everything.IsCanonical :=
  canonical_cons.mpr ⟨Nat.zero_le _, nofun, canonical_nil⟩

theorem isCanonical_single (c : CodePoint) : (single c).IsCanonical :=
  isCanonical_ofIntervals _

theorem isCanonical_span (first last : CodePoint) : (span first last).IsCanonical :=
  isCanonical_ofIntervals _

theorem isCanonical_union (a b : CharSet) : (a ∪ b).IsCanonical :=
  isCanonical_ofIntervals _

theorem isCanonical_unionAll (sets : List CharSet) : (unionAll sets).IsCanonical :=
  isCanonical_ofIntervals _

theorem isCanonical_withOtherCase {a : CharSet} (h : a.IsCanonical) :
    a.withOtherCase.IsCanonical := by
  unfold withOtherCase
  dsimp only
  split
  · exact h
  · exact isCanonical_union _ _

/-! ## Section 3: Gaps -/

/-- The gaps from a point in front of ascending intervals: an interval stands
    between any two of them. -/
theorem canonical_gaps {intervals : List Interval} (h : Ascending intervals) {start : CodePoint}
    (hstart : ∀ i ∈ intervals, start ≤ i.lo) :
    Canonical (gaps start intervals) ∧ ∀ gap ∈ gaps start intervals, start ≤ gap.lo := by
  induction intervals generalizing start with
  | nil =>
    unfold gaps
    split
    next hle =>
      refine ⟨canonical_cons.mpr ⟨hle, nofun, canonical_nil⟩, ?_⟩
      intro gap hgap
      obtain rfl := List.mem_singleton.mp hgap
      exact Nat.le_refl _
    next => exact ⟨canonical_nil, nofun⟩
  | cons i rest ih =>
    obtain ⟨hi, hbehind, hrest⟩ := ascending_cons.mp h
    have hfirst := hstart i List.mem_cons_self
    obtain ⟨hcanonical, hlater⟩ := ih hrest hbehind
    unfold gaps
    split
    next hgap =>
      -- the next gap begins behind the interval that ends this one
      constructor
      · refine canonical_cons.mpr ⟨Nat.le_sub_one_of_lt hgap, ?_, hcanonical⟩
        intro gap hmem
        have hle := hlater gap hmem
        dsimp only [CodePoint] at *
        omega
      · refine List.forall_mem_cons.mpr ⟨Nat.le_refl _, ?_⟩
        intro gap hmem
        have hle := hlater gap hmem
        dsimp only [CodePoint] at *
        omega
    next =>
      refine ⟨hcanonical, ?_⟩
      intro gap hmem
      have hle := hlater gap hmem
      dsimp only [CodePoint] at *
      omega

theorem isCanonical_complement {a : CharSet} (h : a.IsCanonical) : a.complement.IsCanonical :=
  (canonical_gaps h.ascending fun _ _ => Nat.zero_le _).1

/-! ## Section 4: The overlap test -/

/-- The point lies in one of the intervals. -/
def Covered (intervals : List Interval) (c : CodePoint) : Prop :=
  ∃ i ∈ intervals, i.lo ≤ c ∧ c ≤ i.hi

theorem covered_cons {i : Interval} {rest : List Interval} {c : CodePoint} :
    Covered (i :: rest) c ↔ (i.lo ≤ c ∧ c ≤ i.hi) ∨ Covered rest c :=
  List.exists_mem_cons_iff ..

/-- In ascending order the first interval has the least lower end. -/
theorem le_of_covered {i : Interval} {rest : List Interval} (h : Ascending (i :: rest))
    {c : CodePoint} (hc : Covered (i :: rest) c) : i.lo ≤ c := by
  obtain ⟨hi, hbelow, -⟩ := ascending_cons.mp h
  obtain ⟨j, hj, hlo, -⟩ := hc
  rcases List.mem_cons.mp hj with rfl | hj
  · exact hlo
  · have hlt := hbelow j hj
    dsimp only [CodePoint] at *
    omega

/-- An interval that ends before the other list begins has no member in
    common with it, so dropping it loses none. -/
theorem exists_covered_tail_iff {i b : Interval} {rest bs : List Interval}
    (hbs : Ascending (b :: bs)) (hbefore : i.hi < b.lo) :
    (∃ c, Covered rest c ∧ Covered (b :: bs) c) ↔
      ∃ c, Covered (i :: rest) c ∧ Covered (b :: bs) c := by
  refine exists_congr fun c => and_congr_left fun hc => ?_
  have hle := le_of_covered hbs hc
  rw [covered_cons]
  refine (or_iff_right fun hdropped => ?_).symm
  dsimp only [CodePoint] at *
  omega

/-- Of two lists in ascending order, the sweep finds a common member if there
    is one. -/
theorem meets_iff {as bs : List Interval} (has : Ascending as) (hbs : Ascending bs) :
    meets as bs = true ↔ ∃ c, Covered as c ∧ Covered bs c := by
  fun_induction meets as bs with
  | case1 => simp [Covered]
  | case2 => simp [Covered]
  | case3 a as b bs hbefore ih =>
    rw [ih (ascending_cons.mp has).2.2 hbs, exists_covered_tail_iff hbs hbefore]
  | case4 a as b bs _ hbefore ih =>
    rw [ih has (ascending_cons.mp hbs).2.2]
    simpa only [and_comm] using exists_covered_tail_iff has hbefore
  | case5 a as b bs hnot hnot' =>
    -- the greater of the two lower ends lies in both
    obtain ⟨ha, -, -⟩ := ascending_cons.mp has
    obtain ⟨hb, -, -⟩ := ascending_cons.mp hbs
    refine iff_of_true rfl ⟨max a.lo b.lo, covered_cons.mpr (.inl ?_), covered_cons.mpr (.inl ?_)⟩
    all_goals
      dsimp only [CodePoint] at *
      omega

/-- A set whose intervals stand in ascending order, none of them empty and no
    two overlapping.  They may be adjacent. -/
def IsAscending (a : CharSet) : Prop :=
  Ascending a.intervals

theorem IsCanonical.isAscending {a : CharSet} (h : a.IsCanonical) : a.IsAscending :=
  h.ascending

theorem intersects_iff_of_isAscending {a b : CharSet} (ha : a.IsAscending) (hb : b.IsAscending) :
    a.intersects b = true ↔ ∃ c, a.contains c = true ∧ b.contains c = true := by
  rw [intersects, meets_iff ha hb]
  simp only [contains_iff, Covered]

/-- Two sets intersect exactly if they have a common member. -/
theorem intersects_iff {a b : CharSet} (ha : a.IsCanonical) (hb : b.IsCanonical) :
    a.intersects b = true ↔ ∃ c, a.contains c = true ∧ b.contains c = true :=
  intersects_iff_of_isAscending ha.isAscending hb.isAscending

end CharSet

/-! ## Section 5: Sets of leaves -/

theorem Shorthand.isCanonical_chars (kind : Shorthand) : kind.chars.IsCanonical := by
  cases kind with
  | digit => exact CharSet.isCanonical_span _ _
  | notDigit => exact CharSet.isCanonical_complement (CharSet.isCanonical_span _ _)
  | word => exact CharSet.isCanonical_union _ _
  | notWord => exact CharSet.isCanonical_complement (CharSet.isCanonical_union _ _)
  | space => exact CharSet.isCanonical_ofIntervals _
  | notSpace => exact CharSet.isCanonical_complement (CharSet.isCanonical_ofIntervals _)

theorem Modes.isCanonical_accepts (modes : Modes) {chars : CharSet} (h : chars.IsCanonical) :
    (modes.accepts chars).IsCanonical := by
  unfold accepts
  split
  · exact CharSet.isCanonical_withOtherCase h
  · exact h

theorem CharSet.isCanonical_anyButNewline : anyButNewline.IsCanonical :=
  isCanonical_complement (isCanonical_single _)

end RegexInsight
