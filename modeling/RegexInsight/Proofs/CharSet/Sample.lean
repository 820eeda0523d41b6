import Mathlib
import RegexInsight.Proofs.CharSet.Canonical

/-! # Samples of character sets

    A sample is searched for among a few readable characters first, then
    in each interval from its lower end up to the 64th code point behind
    it.  What is found can always serve as a sample.  The search ends
    without one, though, when everything it looks at is a surrogate or to
    be avoided, whatever lies deeper in the intervals: the places that it
    skips count, and there are 2048 surrogates. -/

namespace RegexInsight

/-- What is found first in a list has a property that no member before it
    has. -/
theorem find?_eq_some_iff_first {α : Type} {p : α → Bool} {P : α → Prop} {l : List α} {x : α}
    (hP : ∀ y ∈ l, P y ↔ p y = true) :
    l.find? p = some x ↔
      P x ∧ ∃ before after, l = before ++ x :: after ∧ ∀ y ∈ before, ¬ P y := by
  rw [List.find?_eq_some_iff_append]
  constructor
  · intro hfound
    obtain ⟨hx, before, after, rfl, hbefore⟩ := hfound
    refine ⟨(hP x (by simp)).mpr hx, before, after, rfl, ?_⟩
    intro y hy hproperty
    have hfails := hbefore y hy
    rw [(hP y (by simp [hy])).mp hproperty] at hfails
    exact Bool.false_ne_true hfails
  · intro hfirst
    obtain ⟨hx, before, after, rfl, hbefore⟩ := hfirst
    refine ⟨(hP x (by simp)).mp hx, before, after, rfl, ?_⟩
    intro y hy
    rw [Bool.not_eq_true', Bool.eq_false_iff]
    exact fun hholds => hbefore y hy ((hP y (by simp [hy])).mpr hholds)

namespace CharSet

/-! ## Section 1: Offers -/

/-- A member that can serve as a sample: it has a character of its own and is
    not to be avoided. -/
structure Offers (a : CharSet) (avoid : List CodePoint) (c : CodePoint) : Prop where
  member : a.contains c = true
  character : isSurrogate c = false
  allowed : c ∉ avoid

/-- The part of an interval that is searched. -/
def window (i : Interval) : List CodePoint :=
  List.range' i.lo (min i.hi (i.lo + sampleReach) + 1 - i.lo)

/-- The code point lies in the searched part of some interval. -/
def Near (a : CharSet) (c : CodePoint) : Prop :=
  ∃ i ∈ a.intervals, c ∈ window i

/-- The search comes to the code point unless it ends before. -/
def Searched (a : CharSet) (c : CodePoint) : Prop :=
  c ∈ preferredSamples ∨ a.Near c

/-- The sample that is chosen: the first readable member on offer, or, if
    none is, the least one near the lower end of an interval. -/
def IsChosen (a : CharSet) (avoid : List CodePoint) (c : CodePoint) : Prop :=
  a.Offers avoid c ∧
    ((∃ before after, preferredSamples = before ++ c :: after ∧
        ∀ d ∈ before, ¬ a.Offers avoid d) ∨
      ((∀ d ∈ preferredSamples, ¬ a.Offers avoid d) ∧ a.Near c ∧
        ∀ d, a.Offers avoid d → a.Near d → c ≤ d))

variable {a : CharSet} {avoid : List CodePoint} {c : CodePoint} {i : Interval}

theorem mem_window : c ∈ window i ↔ i.lo ≤ c ∧ c ≤ i.hi ∧ c ≤ i.lo + sampleReach := by
  unfold window
  rw [List.mem_range'_1]
  dsimp only [CodePoint] at *
  omega

/-- Readable characters are no surrogates. -/
theorem offers_iff_of_preferred (hc : c ∈ preferredSamples) :
    a.Offers avoid c ↔ (a.contains c && !avoid.contains c) = true := by
  have hcharacter : isSurrogate c = false := by
    revert c
    decide
  rw [Bool.and_eq_true, Bool.not_eq_true', List.contains_eq_mem, decide_eq_false_iff_not]
  constructor
  · intro h
    exact ⟨h.member, h.allowed⟩
  · intro h
    exact ⟨h.1, hcharacter, h.2⟩

theorem offers_iff_of_window (hi : i ∈ a.intervals) (hc : c ∈ window i) :
    a.Offers avoid c ↔ (!isSurrogate c && !avoid.contains c) = true := by
  have hmember : a.contains c = true := by
    obtain ⟨hlo, hhi, -⟩ := mem_window.mp hc
    exact contains_iff.mpr ⟨i, hi, hlo, hhi⟩
  rw [Bool.and_eq_true, Bool.not_eq_true', Bool.not_eq_true', List.contains_eq_mem,
    decide_eq_false_iff_not]
  constructor
  · intro h
    exact ⟨h.character, h.allowed⟩
  · intro h
    exact ⟨hmember, h.1, h.2⟩

/-! ## Section 2: The two searches -/

/-- The first readable member on offer. -/
def readable? (a : CharSet) (avoid : List CodePoint) : Option CodePoint :=
  preferredSamples.find? fun c => a.contains c && !avoid.contains c

/-- The first member on offer near the lower end of an interval. -/
def near? (a : CharSet) (avoid : List CodePoint) : Option CodePoint :=
  a.intervals.findSome? fun i => (window i).find? fun c => !isSurrogate c && !avoid.contains c

theorem sample_eq (a : CharSet) (avoid : List CodePoint) :
    a.sample avoid = (a.readable? avoid).or (a.near? avoid) := by
  unfold sample
  split
  next found hfound => rw [readable?, hfound, Option.some_or]
  next hnone => rw [readable?, hnone, Option.none_or]; rfl

theorem readable?_eq_none_iff :
    a.readable? avoid = none ↔ ∀ d ∈ preferredSamples, ¬ a.Offers avoid d := by
  rw [readable?, List.find?_eq_none]
  apply forall₂_congr
  intro d hd
  rw [offers_iff_of_preferred hd]

theorem near?_eq_none_iff : a.near? avoid = none ↔ ∀ d, a.Offers avoid d → ¬ a.Near d := by
  simp only [near?, List.findSome?_eq_none_iff, List.find?_eq_none]
  constructor
  · intro hnone d hoffer hnear
    obtain ⟨i, hi, hd⟩ := hnear
    exact hnone i hi d hd ((offers_iff_of_window hi hd).mp hoffer)
  · intro hnone i hi d hd hfree
    exact hnone d ((offers_iff_of_window hi hd).mpr hfree) ⟨i, hi, hd⟩

theorem readable?_eq_some_iff : a.readable? avoid = some c ↔
    a.Offers avoid c ∧ ∃ before after, preferredSamples = before ++ c :: after ∧
      ∀ d ∈ before, ¬ a.Offers avoid d :=
  find?_eq_some_iff_first fun _ hd => offers_iff_of_preferred hd

theorem offers_of_near? (hfound : a.near? avoid = some c) : a.Offers avoid c ∧ a.Near c := by
  obtain ⟨i, hi, hhere⟩ := List.exists_of_findSome?_eq_some hfound
  have hc := List.mem_of_find?_eq_some hhere
  have hfree := List.find?_some hhere
  exact ⟨(offers_iff_of_window hi hc).mpr hfree, i, hi, hc⟩

/-- In ascending order the first interval with a member on offer has the least
    one. -/
theorem le_of_near? (h : a.IsAscending) (hfound : a.near? avoid = some c) {d : CodePoint}
    (hoffer : a.Offers avoid d) (hnear : a.Near d) : c ≤ d := by
  obtain ⟨passed, i, later, hsplit, hhere, hpassed⟩ := List.findSome?_eq_some_iff.mp hfound
  obtain ⟨-, hc, hbefore⟩ := List.find?_range'_eq_some.mp hhere
  obtain ⟨j, hj, hd⟩ := hnear
  have hfree := (offers_iff_of_window hj hd).mp hoffer
  rw [hsplit] at hj
  rcases List.mem_append.mp hj with hj | hj
  · -- an interval that was passed has nothing on offer
    exact absurd hfree (List.find?_eq_none.mp (hpassed j hj) d hd)
  · rcases List.mem_cons.mp hj with rfl | hj
    · by_contra hlt
      have htaken := hbefore d (mem_window.mp hd).1 (Nat.lt_of_not_le hlt)
      rw [hfree] at htaken
      exact Bool.false_ne_true htaken
    · -- a later interval begins behind this one
      have hpairs := h.disjoint
      rw [hsplit] at hpairs
      have hlt := (List.pairwise_cons.mp (List.pairwise_append.mp hpairs).2.1).1 j hj
      have hhi := (mem_window.mp hc).2.1
      have hlo := (mem_window.mp hd).1
      dsimp only [CodePoint] at *
      omega

/-! ## Section 3: The sample -/

theorem sample_eq_none_iff :
    a.sample avoid = none ↔ ∀ d, a.Offers avoid d → ¬ a.Searched d := by
  rw [sample_eq, Option.or_eq_none_iff, readable?_eq_none_iff, near?_eq_none_iff]
  constructor
  · intro hnone d hoffer hsearched
    rcases hsearched with hreadable | hnear
    · exact hnone.1 d hreadable hoffer
    · exact hnone.2 d hoffer hnear
  · intro hnone
    constructor
    · intro d hreadable hoffer
      exact hnone d hoffer (.inl hreadable)
    · intro d hoffer hnear
      exact hnone d hoffer (.inr hnear)

theorem offers_of_sample (hsample : a.sample avoid = some c) : a.Offers avoid c := by
  rw [sample_eq, Option.or_eq_some_iff] at hsample
  rcases hsample with hreadable | ⟨-, hnear⟩
  · exact (readable?_eq_some_iff.mp hreadable).1
  · exact (offers_of_near? hnear).1

/-- A sample is a member. -/
theorem contains_of_sample (hsample : a.sample avoid = some c) : a.contains c = true :=
  (offers_of_sample hsample).member

theorem sample_eq_some_iff (h : a.IsAscending) :
    a.sample avoid = some c ↔ a.IsChosen avoid c := by
  rw [sample_eq, Option.or_eq_some_iff, readable?_eq_some_iff, readable?_eq_none_iff]
  constructor
  · intro hfound
    rcases hfound with ⟨hoffer, hfirst⟩ | ⟨hnone, hnear⟩
    · exact ⟨hoffer, .inl hfirst⟩
    · obtain ⟨hoffer, hmem⟩ := offers_of_near? hnear
      exact ⟨hoffer, .inr ⟨hnone, hmem, fun d => le_of_near? h hnear⟩⟩
  · intro hchosen
    obtain ⟨hoffer, hfirst | ⟨hnone, hmem, hleast⟩⟩ := hchosen
    · exact .inl ⟨hoffer, hfirst⟩
    · right
      cases hfound : a.near? avoid with
      | none => exact absurd hmem (near?_eq_none_iff.mp hfound c hoffer)
      | some d =>
        obtain ⟨hoffer', hmem'⟩ := offers_of_near? hfound
        have hle := le_of_near? h hfound hoffer hmem
        exact ⟨hnone, congrArg some (Nat.le_antisymm hle (hleast d hoffer' hmem'))⟩

/-! ## Section 4: Samples that are missed -/

/-- The search ends without a sample only if the set has none to offer. -/
def IsComplete (a : CharSet) (avoid : List CodePoint) : Prop :=
  a.sample avoid = none ↔
    ∀ c, a.contains c = true → isSurrogate c = false → c ∈ avoid

/-- Nothing is missed if the search comes to a member on offer whenever there
    is one. -/
theorem isComplete_iff : a.IsComplete avoid ↔
    ((∃ c, a.Offers avoid c) → ∃ c, a.Offers avoid c ∧ a.Searched c) := by
  have hnone : (∀ c, a.contains c = true → isSurrogate c = false → c ∈ avoid) ↔
      ¬ ∃ c, a.Offers avoid c := by
    constructor
    · intro hall hsome
      obtain ⟨c, hoffer⟩ := hsome
      exact hoffer.allowed (hall c hoffer.member hoffer.character)
    · intro hnone c hmember hcharacter
      by_contra hallowed
      exact hnone ⟨c, hmember, hcharacter, hallowed⟩
  have hsearched : a.sample avoid = none ↔ ¬ ∃ c, a.Offers avoid c ∧ a.Searched c := by
    rw [sample_eq_none_iff]
    simp only [not_exists, not_and]
  rw [IsComplete, hnone, hsearched, not_iff_not]
  constructor
  · intro hiff
    exact hiff.mpr
  · intro hfinds
    constructor
    · intro hsome
      obtain ⟨c, hoffer, -⟩ := hsome
      exact ⟨c, hoffer⟩
    · exact hfinds

/-- The searched part of an interval has more code points than a short text
    has characters. -/
theorem exists_mem_window_not_mem (hshort : avoid.length ≤ sampleReach)
    (hlong : i.lo + sampleReach < i.hi) : ∃ c ∈ window i, c ∉ avoid := by
  by_contra hall
  have hsub : window i ⊆ avoid := by
    intro c hc
    by_contra hallowed
    exact hall ⟨c, hc, hallowed⟩
  have hnodup : (window i).Nodup := List.nodup_range' ..
  have hle := (List.subperm_of_subset hnodup hsub).length_le
  unfold window at hle
  rw [List.length_range'] at hle
  dsimp only [CodePoint] at *
  omega

/-- Nothing is missed when little is to be avoided and no interval is cut off
    behind surrogates. -/
theorem isComplete_of_short (hshort : avoid.length ≤ sampleReach)
    (hwindow : ∀ i ∈ a.intervals,
      i.hi ≤ i.lo + sampleReach ∨ ∀ c ∈ window i, isSurrogate c = false) :
    a.IsComplete avoid := by
  apply isComplete_iff.mpr
  intro hsome
  obtain ⟨c, hoffer⟩ := hsome
  obtain ⟨i, hi, hlo, hhi⟩ := contains_iff.mp hoffer.member
  by_cases hnear : c ≤ i.lo + sampleReach
  · exact ⟨c, hoffer, .inr ⟨i, hi, mem_window.mpr ⟨hlo, hhi, hnear⟩⟩⟩
  · have hlong : i.lo + sampleReach < i.hi := Nat.lt_of_lt_of_le (Nat.lt_of_not_le hnear) hhi
    have hcharacter := (hwindow i hi).resolve_left (Nat.not_le.mpr hlong)
    obtain ⟨d, hd, hallowed⟩ := exists_mem_window_not_mem hshort hlong
    have hfree : (!isSurrogate d && !avoid.contains d) = true := by
      simp [hcharacter d hd, hallowed]
    exact ⟨d, (offers_iff_of_window hi hd).mpr hfree, .inr ⟨i, hi, hd⟩⟩

theorem forall_isSurrogate_iff {lo hi : CodePoint} (h : lo ≤ hi) :
    (∀ c, lo ≤ c → c ≤ hi → isSurrogate c = true) ↔ 0xD800 ≤ lo ∧ hi ≤ 0xDFFF := by
  unfold isSurrogate
  simp only [Bool.and_eq_true, decide_eq_true_eq]
  constructor
  · intro hall
    exact ⟨(hall lo (Nat.le_refl _) h).1, (hall hi h (Nat.le_refl _)).2⟩
  · intro hends c hlo hhi
    exact ⟨Nat.le_trans hends.1 hlo, Nat.le_trans hhi hends.2⟩

/-- With nothing to avoid, no sample is found if all that is searched are
    surrogates. -/
theorem sample_nil_eq_none_iff (h : a.IsAscending) :
    a.sample [] = none ↔ ∀ i ∈ a.intervals,
      0xD800 ≤ i.lo ∧ min i.hi (i.lo + sampleReach) ≤ 0xDFFF := by
  have hends : ∀ i ∈ a.intervals, i.lo ≤ min i.hi (i.lo + sampleReach) := fun i hi =>
    Nat.le_min.mpr ⟨h.ordered i hi, Nat.le_add_right _ _⟩
  rw [sample_eq_none_iff]
  constructor
  · intro hnone i hi
    apply (forall_isSurrogate_iff (hends i hi)).mp
    intro c hlo hle
    have hhi := Nat.le_min.mp hle
    by_contra hcharacter
    have hoffer : a.Offers [] c :=
      ⟨contains_iff.mpr ⟨i, hi, hlo, hhi.1⟩, Bool.eq_false_iff.mpr hcharacter, List.not_mem_nil⟩
    exact hnone c hoffer (.inr ⟨i, hi, mem_window.mpr ⟨hlo, hhi⟩⟩)
  · intro hall c hoffer hsearched
    rcases hsearched with hreadable | hnear
    · -- the interval of a readable member begins in front of the surrogates
      obtain ⟨i, hi, hlo, -⟩ := contains_iff.mp hoffer.member
      have hbegins := (hall i hi).1
      have hsmall : ∀ d ∈ preferredSamples, d < 0xD800 := by decide
      have hlt := hsmall c hreadable
      dsimp only [CodePoint] at *
      omega
    · obtain ⟨i, hi, hc⟩ := hnear
      obtain ⟨hlo, hhi⟩ := mem_window.mp hc
      have hsurrogate := (forall_isSurrogate_iff (hends i hi)).mpr (hall i hi) c hlo
        (Nat.le_min.mpr hhi)
      exact Bool.eq_false_iff.mp hoffer.character hsurrogate

/-- With nothing to avoid, a sample is missed when all that is searched are
    surrogates, but some interval goes on behind them. -/
theorem isComplete_nil_iff (h : a.IsAscending) : a.IsComplete [] ↔
    ((∀ i ∈ a.intervals, 0xD800 ≤ i.lo ∧ min i.hi (i.lo + sampleReach) ≤ 0xDFFF) →
      ∀ i ∈ a.intervals, i.hi ≤ 0xDFFF) := by
  -- there is nothing to find when all members are surrogates
  have hnone : (∀ c, a.contains c = true → isSurrogate c = false → c ∈ []) ↔
      ∀ i ∈ a.intervals, 0xD800 ≤ i.lo ∧ i.hi ≤ 0xDFFF := by
    constructor
    · intro hall i hi
      apply (forall_isSurrogate_iff (h.ordered i hi)).mp
      intro c hlo hhi
      by_contra hcharacter
      exact List.not_mem_nil
        (hall c (contains_iff.mpr ⟨i, hi, hlo, hhi⟩) (Bool.eq_false_iff.mpr hcharacter))
    · intro hall c hmember hcharacter
      obtain ⟨i, hi, hlo, hhi⟩ := contains_iff.mp hmember
      have hsurrogate := (forall_isSurrogate_iff (h.ordered i hi)).mpr (hall i hi) c hlo hhi
      exact absurd hsurrogate (Bool.eq_false_iff.mp hcharacter)
  rw [IsComplete, sample_nil_eq_none_iff h, hnone]
  constructor
  · intro hiff hall i hi
    exact (hiff.mp hall i hi).2
  · intro hends
    constructor
    · intro hall i hi
      exact ⟨(hall i hi).1, hends hall i hi⟩
    · intro hall i hi
      exact ⟨(hall i hi).1, (Nat.min_le_left _ _).trans (hall i hi).2⟩

/-- The search for a sample of a set in canonical form.  What it finds is the
    first readable member on offer, else the least one among the first 65 code
    points of an interval, and it finds one exactly if there is such a member.
    So it misses the members on offer exactly when all of them lie deeper.
    With at most 64 characters to avoid this needs an interval that is cut off
    behind a surrogate; with none to avoid, all intervals have to begin among
    the surrogates, and one of them has to leave these behind its cut. -/
theorem sample_exact (h : a.IsCanonical) (avoid : List CodePoint) :
    (∀ c, a.sample avoid = some c ↔ a.IsChosen avoid c) ∧
    (a.sample avoid = none ↔ ∀ c, a.Offers avoid c → ¬ a.Searched c) ∧
    (a.IsComplete avoid ↔ ((∃ c, a.Offers avoid c) → ∃ c, a.Offers avoid c ∧ a.Searched c)) ∧
    (avoid.length ≤ sampleReach →
      (∀ i ∈ a.intervals, i.hi ≤ i.lo + sampleReach ∨ ∀ c ∈ window i, isSurrogate c = false) →
      a.IsComplete avoid) ∧
    (a.IsComplete [] ↔
      ((∀ i ∈ a.intervals, 0xD800 ≤ i.lo ∧ min i.hi (i.lo + sampleReach) ≤ 0xDFFF) →
        ∀ i ∈ a.intervals, i.hi ≤ 0xDFFF)) :=
  ⟨fun _ => sample_eq_some_iff h.isAscending, sample_eq_none_iff, isComplete_iff,
    isComplete_of_short, isComplete_nil_iff h.isAscending⟩

/-- The code points from the one in front of the surrogates on: that one is
    the sample, and when it is to be avoided, none of the many behind the
    surrogates is found. -/
theorem sample_exact_of_cut :
    let set : CharSet := ⟨[⟨0xD7FF, 0xFFFF⟩]⟩
    set.IsCanonical ∧ set.IsChosen [] 0xD7FF ∧ set.IsComplete [] ∧
    set.Offers [0xD7FF] 0xE000 ∧ ¬ set.IsComplete [0xD7FF] := by
  intro set
  have hcanonical : set.IsCanonical := ⟨by decide, by decide⟩
  obtain ⟨hchosen, -, -, -, hcomplete⟩ := sample_exact hcanonical []
  obtain ⟨-, hnone, hmissed, -⟩ := sample_exact hcanonical [0xD7FF]
  have hoffer : set.Offers [0xD7FF] 0xE000 := ⟨by decide, by decide, by decide⟩
  refine ⟨hcanonical, (hchosen _).mp (by decide), hcomplete.mpr ?_, hoffer, ?_⟩
  · intro hall
    exact absurd (hall ⟨0xD7FF, 0xFFFF⟩ List.mem_cons_self).1 (by decide)
  · intro hfinds
    obtain ⟨c, hc, hsearched⟩ := hmissed.mp hfinds ⟨_, hoffer⟩
    exact hnone.mp (by decide) c hc hsearched

/-- Of the surrogates and the code point behind them no sample is found,
    though that code point has a character. -/
theorem not_isComplete_of_surrogates :
    ¬ ∀ (a : CharSet) (avoid : List CodePoint), a.IsCanonical →
      (a.sample avoid = none ↔
        ∀ c, a.contains c = true → isSurrogate c = false → c ∈ avoid) := by
  intro hall
  have hcanonical : (⟨[⟨0xD800, 0xE000⟩]⟩ : CharSet).IsCanonical := ⟨by decide, by decide⟩
  have hnone := (hall ⟨[⟨0xD800, 0xE000⟩]⟩ [] hcanonical).mp (by decide)
  exact List.not_mem_nil (hnone 0xE000 (by decide) (by decide))

end CharSet

end RegexInsight
