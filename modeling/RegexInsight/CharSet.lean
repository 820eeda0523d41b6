/-! # Character Sets

    Sets of code points kept as intervals.  A set in canonical form lists
    its intervals in ascending order, none empty and no two of them
    overlapping or adjacent, so two such sets are equal exactly when they
    have the same members.

    The algebra needed by the pattern analyses is small: union,
    complement, the ASCII other-case closure, an overlap test and the
    choice of a representative member. -/

namespace RegexInsight

/-- A code point: a scalar value, or one of the surrogates that only an
    escape such as `\ud800` can name. -/
abbrev CodePoint := Nat

/-- The largest code point. -/
def maxCodePoint : CodePoint := 0x10FFFF

/-- Surrogate code points have no character of their own. -/
def isSurrogate (c : CodePoint) : Bool :=
  0xD800 ≤ c && c ≤ 0xDFFF

/-- The code points of a text. -/
def pointsOf (text : List Char) : List CodePoint :=
  text.map Char.toNat

/-- An inclusive interval of code points; empty when `hi < lo`. -/
structure Interval where
  lo : CodePoint
  hi : CodePoint
  deriving DecidableEq, Repr, Inhabited

namespace Interval

/-- Membership of a code point in an interval. -/
def contains (i : Interval) (c : CodePoint) : Bool :=
  i.lo ≤ c && c ≤ i.hi

/-- Order by lower end, then by upper end. -/
def le (a b : Interval) : Bool :=
  a.lo < b.lo || (a.lo == b.lo && a.hi ≤ b.hi)

end Interval

/-- A set of code points. -/
structure CharSet where
  intervals : List Interval
  deriving DecidableEq, Repr, Inhabited

namespace CharSet

/-! ## Section 1: Building -/

/-- The set without members. -/
def empty : CharSet := ⟨[]⟩

/-- Every code point. -/
def everything : CharSet := ⟨[⟨0, maxCodePoint⟩]⟩

/-- Joins `current` with the intervals after it, which are sorted by lower
    end, wherever they overlap or touch. -/
def fuse (current : Interval) : List Interval → List Interval
  | [] => [current]
  | next :: rest =>
    if next.lo ≤ current.hi + 1 then
      fuse ⟨current.lo, max current.hi next.hi⟩ rest
    else
      current :: fuse next rest

/-- The canonical form of sorted, non-empty intervals. -/
def fuseAll : List Interval → List Interval
  | [] => []
  | first :: rest => fuse first rest

/-- The canonical set with the members of the given intervals. -/
def ofIntervals (intervals : List Interval) : CharSet :=
  ⟨fuseAll ((intervals.filter fun i => i.lo ≤ i.hi).mergeSort Interval.le)⟩

/-- The set of the listed code points. -/
def ofPoints (points : List CodePoint) : CharSet :=
  ofIntervals (points.map fun c => ⟨c, c⟩)

/-- The code points from `first` to `last`. -/
def span (first last : CodePoint) : CharSet :=
  ofIntervals [⟨first, last⟩]

/-- The set of one code point. -/
def single (c : CodePoint) : CharSet :=
  ofPoints [c]

/-- The characters of a text. -/
def ofText (text : List Char) : CharSet :=
  ofPoints (pointsOf text)

/-! ## Section 2: Algebra -/

/-- The members of either set. -/
def union (a b : CharSet) : CharSet :=
  ofIntervals (a.intervals ++ b.intervals)

instance : Union CharSet := ⟨union⟩

/-- The members of any of the sets. -/
def unionAll (sets : List CharSet) : CharSet :=
  ofIntervals (sets.flatMap intervals)

/-- The gaps from `start` up to the largest code point that sorted,
    disjoint intervals leave. -/
def gaps (start : CodePoint) : List Interval → List Interval
  | [] => if start ≤ maxCodePoint then [⟨start, maxCodePoint⟩] else []
  | i :: rest =>
    if start < i.lo then ⟨start, i.lo - 1⟩ :: gaps (i.hi + 1) rest
    else gaps (i.hi + 1) rest

/-- The code points outside the set. -/
def complement (a : CharSet) : CharSet :=
  ⟨gaps 0 a.intervals⟩

/-- The images, under a shift from one block of 26 letters to the other, of
    the members of an interval that lie in the first block. -/
def shiftedLetters (source target : CodePoint) (i : Interval) : List Interval :=
  let lo := max i.lo source
  let hi := min i.hi (source + 25)
  if lo ≤ hi then [⟨lo - source + target, hi - source + target⟩] else []

/-- The set together with the other-case partner of each ASCII letter in
    it. -/
def withOtherCase (a : CharSet) : CharSet :=
  let partners := a.intervals.flatMap fun i =>
    shiftedLetters 97 65 i ++ shiftedLetters 65 97 i
  if partners.isEmpty then a else a.union ⟨partners⟩

/-! ## Section 3: Queries -/

/-- Membership. -/
def contains (a : CharSet) (c : CodePoint) : Bool :=
  a.intervals.any (·.contains c)

/-- A set in canonical form is inhabited exactly when it has an interval. -/
def isInhabited (a : CharSet) : Bool :=
  !a.intervals.isEmpty

/-- Sweeps two sorted interval lists: whichever interval ends before the
    other begins meets nothing that remains. -/
def meets : List Interval → List Interval → Bool
  | [], _ => false
  | _ :: _, [] => false
  | a :: as, b :: bs =>
    if a.hi < b.lo then meets as (b :: bs)
    else if b.hi < a.lo then meets (a :: as) bs
    else true
termination_by as bs => as.length + bs.length

/-- Whether the two sets have a common member. -/
def intersects (a b : CharSet) : Bool :=
  meets a.intervals b.intervals

/-- Whether a set in canonical form has exactly one member. -/
def isSingle (a : CharSet) : Bool :=
  match a.intervals with
  | [i] => i.lo == i.hi
  | _ => false

/-- Readable members, in the order in which a sample prefers them. -/
def preferredSamples : List CodePoint :=
  pointsOf ['a', '0', 'A', '_', ' ', '-', '.', '!']

/-- How far past its lower end an interval is searched for a sample. -/
def sampleReach : Nat := 64

/-- A member that is no surrogate and is not to be avoided, readable ASCII
    first, then the first such member near the lower end of an interval. -/
def sample (a : CharSet) (avoid : List CodePoint) : Option CodePoint :=
  match preferredSamples.find? fun c => a.contains c && !avoid.contains c with
  | some c => some c
  | none =>
    a.intervals.findSome? fun i =>
      (List.range' i.lo (min i.hi (i.lo + sampleReach) + 1 - i.lo)).find? fun c =>
        !isSurrogate c && !avoid.contains c

end CharSet

end RegexInsight
