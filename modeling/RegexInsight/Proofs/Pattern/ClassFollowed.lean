import Mathlib
import RegexInsight.Proofs.Pattern.ClassItems
import RegexInsight.Proofs.Pattern.Excerpt
import RegexInsight.Proofs.Pattern.Within

/-! # Classes and what follows them

    A bracket class ends at its closing bracket, and each of its members is
    read from its own characters, with one exception: where `[:` begins a
    member, the end of a POSIX class is searched for in all that is left of
    the pattern.  A class that has no such end for one of its members, and so
    takes the bracket for itself when it stands alone, is read as before in
    front of every text without `:]`, and fails in front of every other one.
    What follows the class is read as it is read alone. -/

namespace RegexInsight

/-! ## Section 1: Cursors with more text -/

namespace Cursor

variable {cur after : Cursor} {found tail : Text} {n : Nat}

/-- The cursor in front of more text. -/
def followedBy (cur : Cursor) (tail : Text) : Cursor :=
  ⟨cur.pos, cur.rest ++ tail⟩

theorem rest_followedBy {c : Char} {rest : Text} (h : cur.rest = c :: rest) :
    (cur.followedBy tail).rest = c :: (rest ++ tail) := by
  rw [followedBy, h]
  rfl

theorem length_rest_followedBy_le (cur : Cursor) (tail : Text) :
    cur.rest.length ≤ (cur.followedBy tail).rest.length :=
  (List.sublist_append_left _ _).length_le

theorem head?_followedBy (h : cur.rest ≠ []) :
    (cur.followedBy tail).rest.head? = cur.rest.head? := by
  obtain ⟨c, rest, hrest⟩ := List.exists_cons_of_ne_nil h
  rw [rest_followedBy hrest, hrest]
  rfl

theorem advance_followedBy (h : n ≤ cur.rest.length) :
    (cur.followedBy tail).advance n = (cur.advance n).followedBy tail := by
  simp only [followedBy, advance, List.drop_append_of_le_length h]

theorem upTo?_followedBy {stop : Char} (h : cur.upTo? stop = some (found, after)) :
    (cur.followedBy tail).upTo? stop = some (found, after.followedBy tail) := by
  obtain ⟨hstop, ⟨rest, hrest⟩, rfl⟩ := upTo?_eq_some_iff.mp h
  refine upTo?_eq_some_iff.mpr ⟨hstop, ⟨rest ++ tail, ?_⟩, ?_⟩
  · rw [followedBy, hrest, List.append_assoc, List.cons_append]
  · rw [advance_followedBy]
    simp [hrest]

end Cursor

namespace Escape

variable {start : Nat} {cur after : Cursor} {tail : Text}

theorem hexDigits?_followedBy {letter : Char} {width : Nat} {digits : Text} (hwidth : 0 < width)
    (h : hexDigits? letter width cur = some (digits, after)) :
    hexDigits? letter width (cur.followedBy tail) = some (digits, after.followedBy tail) := by
  rcases hexDigits?_eq_some_iff.mp h with ⟨hbrace, hfound⟩ | ⟨hplain, hle, rfl, rfl⟩
  · obtain ⟨rest, hrest⟩ := List.head?_eq_some_iff.mp hbrace.2
    have hne : cur.rest ≠ [] := by simp [hrest]
    refine hexDigits?_eq_some_iff.mpr (.inl ⟨by rwa [Cursor.head?_followedBy hne], ?_⟩)
    rw [Cursor.advance_followedBy (List.length_pos_of_ne_nil hne)]
    exact Cursor.upTo?_followedBy hfound
  · have hne : cur.rest ≠ [] := List.ne_nil_of_length_pos (Nat.lt_of_lt_of_le hwidth hle)
    refine hexDigits?_eq_some_iff.mpr (.inr ⟨by rwa [Cursor.head?_followedBy hne],
      hle.trans (Cursor.length_rest_followedBy_le cur tail),
      (List.take_append_of_le_length hle).symm, (Cursor.advance_followedBy hle).symm⟩)

theorem readHex_followedBy {letter : Char} {width : Nat} {code : CodePoint} (hwidth : 0 < width)
    (h : readHex start letter width cur = .ok (code, after)) :
    readHex start letter width (cur.followedBy tail) = .ok (code, after.followedBy tail) := by
  obtain ⟨digits, hdigits, hcode⟩ := readHex_eq_ok_iff.mp h
  exact readHex_eq_ok_iff.mpr ⟨digits, hexDigits?_followedBy hwidth hdigits, hcode⟩

/-- An octal code ends in front of another character of its text. -/
theorem readOctal_followedBy {first : Char} {code : CodePoint} (hmore : after.rest ≠ [])
    (h : readOctal start first cur = .ok (code, after)) :
    readOctal start first (cur.followedBy tail) = .ok (code, after.followedBy tail) := by
  obtain ⟨code', hcode, hpair⟩ := Read.bind_eq_ok.mp h
  obtain ⟨rfl, rfl⟩ := Prod.mk.inj (Except.ok.inj hpair)
  -- the digits end in front of a character of the text, or there are two of them
  have hsame : ((cur.rest ++ tail).take 2).takeWhile isOctal =
      (cur.rest.take 2).takeWhile isOctal := by
    match hrest : cur.rest with
    | [] => simp [hrest] at hmore
    | [c] =>
      cases hc : isOctal c with
      | true => simp [hrest, hc] at hmore
      | false => simp [hc]
    | c :: d :: rest => rfl
  have hle : ((cur.rest.take 2).takeWhile isOctal).length ≤ cur.rest.length :=
    ((List.takeWhile_sublist _).trans (List.take_sublist _ _)).length_le
  show (octalCode start (first :: ((cur.rest ++ tail).take 2).takeWhile isOctal) >>= fun code =>
    pure (code, (cur.followedBy tail).advance
      (((cur.rest ++ tail).take 2).takeWhile isOctal).length)) = _
  rw [hsame, hcode, Cursor.advance_followedBy hle]
  rfl

theorem propertyName_followedBy {name : Text} (h : propertyName start cur = .ok (name, after)) :
    propertyName start (cur.followedBy tail) = .ok (name, after.followedBy tail) := by
  rcases propertyName_eq_ok_iff.mp h with
    ⟨rest, hrest, hfound⟩ | ⟨c, rest, hrest, hletter, rfl, rfl⟩
  all_goals
    have hrest' : (cur.followedBy tail).rest = _ := Cursor.rest_followedBy hrest
    have hadvance : (cur.followedBy tail).advance 1 = (cur.advance 1).followedBy tail :=
      Cursor.advance_followedBy (by simp [hrest])
  · exact propertyName_eq_ok_iff.mpr (.inl ⟨_, hrest', hadvance ▸ Cursor.upTo?_followedBy hfound⟩)
  · exact propertyName_eq_ok_iff.mpr (.inr ⟨c, _, hrest', hletter, rfl, hadvance.symm⟩)

theorem readProperty_followedBy {negated : Bool} {chars : CharSet}
    (h : readProperty start negated cur = .ok (chars, after)) :
    readProperty start negated (cur.followedBy tail) = .ok (chars, after.followedBy tail) := by
  obtain ⟨⟨written, after'⟩, hname, h⟩ := Read.bind_eq_ok.mp h
  obtain ⟨hsome, hpair⟩ := Read.guard_eq_ok.mp h
  obtain ⟨rfl, rfl⟩ := Prod.mk.inj (Except.ok.inj hpair)
  simp only [readProperty, propertyName_followedBy hname]
  exact Read.guard_eq_ok.mpr ⟨hsome, rfl⟩

end Escape

/-! ## Section 2: Members with more text -/

namespace Bracket

variable {start : Nat} {cur after place : Cursor} {tail rest : Text} {isFirst : Bool}
  {members result : Members}

/-- What is made of a result is the same in front of more text. -/
theorem bind_followedBy {α β : Type} {read read' : Read (α × Cursor)} (f : α → β) {b : β}
    (h : (read >>= fun x => pure (f x.1, x.2)) = .ok (b, after))
    (hread : ∀ {a stop}, read = .ok (a, stop) → stop = after →
      read' = .ok (a, stop.followedBy tail)) :
    (read' >>= fun x => pure (f x.1, x.2)) = .ok (b, after.followedBy tail) := by
  obtain ⟨⟨a, stop⟩, ha, hpair⟩ := Read.bind_eq_ok.mp h
  obtain ⟨rfl, rfl⟩ := Prod.mk.inj (Except.ok.inj hpair)
  exact Read.bind_eq_ok.mpr ⟨_, hread ha rfl, rfl⟩

theorem readAtom_followedBy {atom : Atom} (hmore : after.rest ≠ [])
    (h : readAtom cur = .ok (atom, after)) :
    readAtom (cur.followedBy tail) = .ok (atom, after.followedBy tail) := by
  rcases cases_of_readAtom h with ⟨c, rest, hrest, hc, rfl, rfl⟩ | ⟨c, rest, hrest⟩
  · rw [readAtom_plain (Cursor.rest_followedBy hrest) hc,
      Cursor.advance_followedBy (by simp [hrest])]
  have hadvance : (cur.followedBy tail).advance 2 = (cur.advance 2).followedBy tail :=
    Cursor.advance_followedBy (by simp [hrest])
  obtain ⟨f, hform, hread⟩ := exists_form c
  rw [hread cur rest hrest] at h
  refine (hread _ _ (Cursor.rest_followedBy hrest)).trans ?_
  cases hform with
  | pair _ =>
    obtain ⟨rfl, rfl⟩ := Prod.mk.inj (Except.ok.inj h)
    simp only [hadvance]
  | property _ =>
    simp only [hadvance]
    exact bind_followedBy (Atom.mk · none true) h fun hchars _ =>
      Escape.readProperty_followedBy hchars
  | hexadecimal hwidth =>
    simp only [hadvance]
    exact bind_followedBy Atom.char h fun hcode _ =>
      Escape.readHex_followedBy (Escape.hexWidth?_pos hwidth) hcode
  | octal =>
    simp only [hadvance]
    -- only here it matters that the class goes on behind the member
    exact bind_followedBy Atom.char h fun hcode hstop =>
      Escape.readOctal_followedBy (hstop ▸ hmore) hcode
  | unknown => simp at h

theorem GoesOn.followedBy (h : GoesOn cur) : GoesOn (cur.followedBy tail) := by
  obtain ⟨next, rest, hdash, hne⟩ := h
  exact ⟨next, rest ++ tail, Cursor.rest_followedBy hdash, hne⟩

/-- In front of a closing bracket, a range that goes on does so in the
    class. -/
theorem goesOn_of_followedBy (hclose : ']' ∈ cur.rest) (h : GoesOn (cur.followedBy tail)) :
    GoesOn cur := by
  obtain ⟨next, rest, h, hne⟩ := h
  rcases hcur : cur.rest with _ | ⟨c, _ | ⟨d, more⟩⟩
  · simp [hcur] at hclose
  · obtain rfl : c = ']' := by simpa [hcur, eq_comm] using hclose
    rw [Cursor.rest_followedBy hcur] at h
    cases (List.cons.inj h).1
  · rw [Cursor.rest_followedBy hcur] at h
    obtain ⟨rfl, hmore⟩ := List.cons.inj h
    obtain ⟨rfl, -⟩ := List.cons.inj hmore
    exact ⟨d, more, hcur, hne⟩

/-- A member looks no further than the closing bracket behind it. -/
theorem readItem_followedBy {item : CharSet × Bool} (hclose : ']' ∈ after.rest)
    (h : readItem cur = .ok (item, after)) :
    readItem (cur.followedBy tail) = .ok (item, after.followedBy tail) := by
  have hmore : after.rest ≠ [] := List.ne_nil_of_mem hclose
  rcases readItem_cases h with ⟨low, hlow, halone, rfl⟩ |
    ⟨low, afterLow, lo, high, hi, hlow, hlo, hgoes, hhigh, hhi, horder, rfl⟩
  · exact readItem_alone (readAtom_followedBy hmore hlow)
      (halone.imp_right fun hends hgoes => hends (goesOn_of_followedBy hclose hgoes))
  · obtain ⟨next, rest, hdash, -⟩ := id hgoes
    have hlow' : readAtom (cur.followedBy tail) = .ok (low, afterLow.followedBy tail) :=
      readAtom_followedBy (by simp [hdash]) hlow
    have hhigh' : readAtom ((afterLow.followedBy tail).advance 1) =
        .ok (high, after.followedBy tail) := by
      rw [Cursor.advance_followedBy (by simp [hdash])]
      exact readAtom_followedBy hmore hhigh
    rw [readItem_of_goesOn hlow' hlo hgoes.followedBy hhigh' hhi, if_neg horder]

theorem posixName?_followedBy {name : Text} (h : posixName? cur = some (name, after)) :
    posixName? (cur.followedBy tail) = some (name, after.followedBy tail) := by
  obtain ⟨⟨rest, hrest⟩, hfound, rfl⟩ := posixName?_eq_some_iff.mp h
  have hadvance : (cur.followedBy tail).advance 2 = (cur.advance 2).followedBy tail :=
    Cursor.advance_followedBy (by simp [hrest])
  refine posixName?_eq_some_iff.mpr ⟨⟨rest ++ tail, Cursor.rest_followedBy hrest⟩, ?_, ?_⟩
  · rw [hadvance]
    exact Cursor.beforePair?_append tail hfound
  · rw [hadvance, Cursor.advance_followedBy (Cursor.length_beforePair? hfound)]

/-! ## Section 3: POSIX classes that are left open -/

/-- The places at which a member begins when the members of a class are read
    from a cursor on. -/
inductive MemberAt : Bool → Cursor → Cursor → Prop where
  | here {isFirst : Bool} {cur : Cursor} : MemberAt isFirst cur cur
  | posix {isFirst : Bool} {cur after place : Cursor} {written : Text}
      (hname : posixName? cur = some (written, after)) (h : MemberAt false after place) :
      MemberAt isFirst cur place
  | item {isFirst : Bool} {cur after place : Cursor} {item : CharSet × Bool}
      (hopen : isFirst = true ∨ cur.rest.head? ≠ some ']') (hname : posixName? cur = none)
      (hitem : readItem cur = .ok (item, after)) (h : MemberAt false after place) :
      MemberAt isFirst cur place

/-- A POSIX class begins at the cursor and has no end in the text. -/
def OpensPosix (cur : Cursor) : Prop :=
  ∃ rest, cur.rest = '[' :: ':' :: rest ∧ ¬ HasPair ':' ']' rest

/-- At one of the members of a class, a POSIX class begins and has no end. -/
def LeavesPosixOpen (source : Text) : Prop :=
  ∃ negated k place, OpensWith (.ofText source) negated k ∧
    MemberAt true ((Cursor.ofText source).advance k) place ∧ OpensPosix place

/-- A pair that does not begin with the character between two texts stands
    in one of them. -/
theorem hasPair_append_cons {a b c : Char} (hne : c ≠ a) {text : Text}
    (h : HasPair a b (text ++ c :: tail)) : HasPair a b (text ++ [c]) ∨ HasPair a b tail := by
  induction text with
  | nil => exact .inr (hasPair_cons h hne)
  | cons d rest ih =>
    rcases hasPair_cons_iff.mp h with ⟨rfl, hhead⟩ | hmore
    · refine .inl (hasPair_cons_iff.mpr (.inl ⟨rfl, ?_⟩))
      cases rest with
      | nil => exact hhead
      | cons e more => exact hhead
    · exact (ih hmore).imp_left fun hpair => hpair.append_left [d]

/-- Where a POSIX class begins in front of a closing bracket, its opening
    stands in front of the bracket, too. -/
theorem exists_cons_of_append_bracket {body : Text}
    (h : body ++ ']' :: tail = '[' :: ':' :: rest) : ∃ inner, body = '[' :: ':' :: inner := by
  match body with
  | [] => cases (List.cons.inj h).1
  | [_] => cases (List.cons.inj (List.cons.inj h).2).1
  | _ :: _ :: inner =>
    obtain ⟨hbracket, hmore⟩ := List.cons.inj h
    obtain ⟨hcolon, -⟩ := List.cons.inj hmore
    exact ⟨inner, by rw [hbracket, hcolon]⟩

/-- The end of a POSIX class is found in the text that follows only where
    one was left open. -/
theorem posixName?_followedBy_of_none {body : Text} (h : posixName? cur = none)
    (hend : cur.rest = body ++ [']']) (hclosed : ¬ (OpensPosix cur ∧ HasPair ':' ']' tail)) :
    posixName? (cur.followedBy tail) = none := by
  have hrest : (cur.followedBy tail).rest = body ++ ']' :: tail := by
    rw [Cursor.followedBy, hend, List.append_assoc]
    rfl
  rw [posixName?_eq_none_iff] at h ⊢
  intro rest hopens hpair
  rw [hrest] at hopens
  obtain ⟨inner, rfl⟩ := exists_cons_of_append_bracket hopens
  obtain rfl : inner ++ ']' :: tail = rest := (List.cons.inj (List.cons.inj hopens).2).2
  have hnone : ¬ HasPair ':' ']' (inner ++ [']']) := h _ hend
  -- the closing bracket begins no `:]`
  rcases hasPair_append_cons (by decide) hpair with hpair | hpair
  · exact hnone hpair
  · exact hclosed ⟨⟨_, hend, hnone⟩, hpair⟩

theorem exists_append_of_passes {next : Cursor} (h : cur.Passes next)
    (hnext : ∃ body, next.rest = body ++ [']']) : ∃ body, cur.rest = body ++ [']'] := by
  obtain ⟨⟨n, -, rfl⟩, -⟩ := h
  obtain ⟨body, hbody⟩ := hnext
  rw [Cursor.advance_rest] at hbody
  exact ⟨cur.rest.take n ++ body, by rw [List.append_assoc, ← hbody, List.take_append_drop]⟩

/-- The members of a class end with its closing bracket. -/
theorem exists_append_of_readMembers {fuel : Nat}
    (h : readMembers start fuel isFirst members cur = .ok (result, after))
    (hend : after.rest = []) : ∃ body, cur.rest = body ++ [']'] := by
  induction fuel generalizing isFirst members cur with
  | zero => simp [readMembers] at h
  | succ fuel ih =>
    rcases readMembers_cases h with ⟨-, ⟨rest, hrest⟩, -, rfl⟩ |
      ⟨_, next, _, hname, -, hmore⟩ | ⟨_, next, -, -, hitem, hmore⟩
    · have hlast : rest = [] := by simpa [hrest] using hend
      exact ⟨[], by rw [hrest, hlast]; rfl⟩
    · exact exists_append_of_passes (passes_of_posixName? hname) (ih hmore)
    · exact exists_append_of_passes (passes_of_readItem hitem) (ih hmore)

/-- A member is passed in front of more text as without it, unless a POSIX
    class is left open there. -/
theorem readMembers_member_followedBy {body : Text} {item : CharSet × Bool} {next : Cursor}
    (hopen : isFirst = true ∨ cur.rest.head? ≠ some ']') (hname : posixName? cur = none)
    (hitem : readItem cur = .ok (item, next)) (hbody : cur.rest = body ++ [']'])
    (hnext : ']' ∈ next.rest) (hclosed : ¬ (OpensPosix cur ∧ HasPair ':' ']' tail))
    (start fuel : Nat) (members : Members) :
    readMembers start (fuel + 1) isFirst members (cur.followedBy tail) =
      readMembers start fuel false
        { members with
          sets := item.1 :: members.sets
          hasProperty := members.hasProperty || item.2 } (next.followedBy tail) := by
  have hne : cur.rest ≠ [] := by simp [hbody]
  have hopen' : isFirst = true ∨ (cur.followedBy tail).rest.head? ≠ some ']' := by
    rwa [Cursor.head?_followedBy hne]
  rw [readMembers_member (by simp [Cursor.followedBy, hne]) hopen'
    (posixName?_followedBy_of_none hname hbody hclosed), readItem_followedBy hnext hitem]
  rfl

/-- A class that is read to its end is read the same in front of more text,
    unless that text ends a POSIX class for it. -/
theorem readMembers_followedBy {fuel : Nat}
    (h : readMembers start fuel isFirst members cur = .ok (result, after)) (hend : after.rest = [])
    (hclosed : ∀ place, MemberAt isFirst cur place → ¬ (OpensPosix place ∧ HasPair ':' ']' tail))
    (start' : Nat) {fuel' : Nat} (hfuel : fuel ≤ fuel') :
    readMembers start' fuel' isFirst members (cur.followedBy tail) =
      .ok (result, after.followedBy tail) := by
  induction fuel generalizing isFirst members cur fuel' with
  | zero => simp [readMembers] at h
  | succ fuel ih =>
    obtain ⟨fuel', rfl⟩ := Nat.exists_eq_add_of_le' (Nat.le_trans (Nat.succ_pos fuel) hfuel)
    have hfuel : fuel ≤ fuel' := Nat.le_of_succ_le_succ hfuel
    obtain ⟨body, hbody⟩ := exists_append_of_readMembers h hend
    rcases readMembers_cases h with ⟨rfl, ⟨rest, hrest⟩, rfl, rfl⟩ |
      ⟨written, next, chars, hname, hchars, hmore⟩ | ⟨item, next, hopen, hname, hitem, hmore⟩
    · rw [readMembers_close (Cursor.rest_followedBy hrest),
        Cursor.advance_followedBy (by simp [hrest])]
    · rw [readMembers_posix (posixName?_followedBy hname), readPosix_of_ok _ hchars]
      exact ih hmore (fun place hplace => hclosed place (.posix hname hplace)) hfuel
    · -- behind the member the class goes on, so that its bracket is still to come
      obtain ⟨inner, hinner⟩ := exists_append_of_readMembers hmore hend
      rw [readMembers_member_followedBy hopen hname hitem hbody (by simp [hinner])
        (hclosed cur .here)]
      exact ih hmore (fun place hplace => hclosed place (.item hopen hname hitem hplace)) hfuel

/-- A POSIX class that ends behind a bracket, and not in front of it, has the
    bracket in its name. -/
theorem bracket_mem_of_beforePair? {inner written : Text}
    (hnone : ¬ HasPair ':' ']' (inner ++ [']']))
    (h : Cursor.beforePair? ':' ']' (inner ++ ']' :: tail) = some written) : ']' ∈ written := by
  obtain ⟨⟨more, hmore⟩, -⟩ := Cursor.beforePair?_eq_some_iff.mp h
  have hname : written ++ [':', ']'] <+: inner ++ ']' :: tail :=
    ⟨more, by rw [hmore, List.append_assoc]; rfl⟩
  have hclass : inner ++ [']'] <+: inner ++ ']' :: tail :=
    ⟨tail, by rw [List.append_assoc]; rfl⟩
  -- the end is not read within the class, so that the name goes beyond it
  rcases List.prefix_or_prefix_of_prefix hname hclass with ⟨t, ht⟩ | hprefix
  · exact absurd ⟨written, t, by rw [← ht, List.append_assoc]; rfl⟩ hnone
  · rw [show written ++ [':', ']'] = (written ++ [':']) ++ [']'] by simp,
      List.prefix_concat_iff] at hprefix
    rcases hprefix with heq | hprefix
    · exact absurd ⟨written, [], by rw [heq, List.append_assoc]; rfl⟩ hnone
    · simpa using hprefix.subset (List.mem_append_right inner (List.mem_singleton_self _))

/-- No POSIX class has a bracket in its name. -/
theorem posixClass?_eq_none_of_bracket {written : Text} (h : ']' ∈ written) :
    posixClass? (written.dropWhile (· == '^')) = none := by
  refine Option.eq_none_iff_forall_ne_some.mpr fun chars hchars => ?_
  refine (not_mem_of_posixClass? (Option.isSome_iff_exists.mpr ⟨chars, hchars⟩)).2.2 ?_
  rw [← List.takeWhile_append_dropWhile (p := (· == '^')) (l := written), List.mem_append] at h
  refine h.resolve_left fun hcaret => ?_
  exact absurd (List.mem_takeWhile_imp hcaret) (by decide)

/-- A POSIX class that is left open and finds its end in the text that
    follows has a bracket in its name, which no POSIX class has. -/
theorem readMembers_of_opensPosix {body : Text} (hopen : OpensPosix cur)
    (hend : cur.rest = body ++ [']']) (hpair : HasPair ':' ']' tail) (start fuel : Nat)
    (isFirst : Bool) (members : Members) :
    ∃ name position, readMembers start (fuel + 1) isFirst members (cur.followedBy tail) =
      .error (.fault (.unknownPosixClass name) position) := by
  obtain ⟨rest, hrest, hnone⟩ := hopen
  obtain ⟨inner, rfl⟩ := exists_cons_of_append_bracket (hend.symm.trans hrest)
  obtain rfl : inner ++ [']'] = rest := by
    rw [hend] at hrest
    exact (List.cons.inj (List.cons.inj hrest).2).2
  have hrest' : (cur.followedBy tail).rest = '[' :: ':' :: (inner ++ ']' :: tail) := by
    simp [Cursor.followedBy, hend]
  -- with the text that follows, an end is found
  obtain ⟨written, hwritten⟩ : ∃ written,
      Cursor.beforePair? ':' ']' (inner ++ ']' :: tail) = some written := by
    refine Option.ne_none_iff_exists'.mp fun hfound => ?_
    exact Cursor.beforePair?_eq_none_iff.mp hfound ((hpair.append_left [']']).append_left inner)
  have hname := posixClass?_eq_none_of_bracket (bracket_mem_of_beforePair? hnone hwritten)
  refine ⟨written.dropWhile (· == '^'), cur.pos, ?_⟩
  have hopens : posixName? (cur.followedBy tail) =
      some (written, ((cur.followedBy tail).advance 2).advance (written.length + 2)) := by
    refine posixName?_eq_some_iff.mpr ⟨⟨_, hrest'⟩, ?_, rfl⟩
    rw [Cursor.advance_rest, hrest']
    exact hwritten
  rw [readMembers_posix hopens]
  simp [readPosix, hname, bind, Except.bind, Read.fail, Cursor.followedBy]

theorem exists_fuel {fuel fuel' : Nat}
    (h : readMembers start fuel isFirst members cur = .ok (result, after)) (hfuel : fuel ≤ fuel') :
    ∃ m m', fuel = m + 1 ∧ fuel' = m' + 1 ∧ m ≤ m' := by
  cases fuel with
  | zero => simp [readMembers] at h
  | succ m =>
    obtain ⟨m', rfl⟩ := Nat.exists_eq_add_of_le' (Nat.le_trans (Nat.succ_pos m) hfuel)
    exact ⟨m, m', rfl, rfl, Nat.le_of_succ_le_succ hfuel⟩

/-- A class that leaves a POSIX class open fails in front of a text that ends
    it. -/
theorem readMembers_leftOpen (hplace : MemberAt isFirst cur place) (hopen : OpensPosix place)
    (hpair : HasPair ':' ']' tail) {fuel : Nat}
    (h : readMembers start fuel isFirst members cur = .ok (result, after)) (hend : after.rest = [])
    (start' : Nat) {fuel' : Nat} (hfuel : fuel ≤ fuel') :
    ∃ name position, readMembers start' fuel' isFirst members (cur.followedBy tail) =
      .error (.fault (.unknownPosixClass name) position) := by
  induction hplace generalizing fuel fuel' members with
  | here =>
    obtain ⟨body, hbody⟩ := exists_append_of_readMembers h hend
    obtain ⟨fuel, fuel', rfl, rfl, -⟩ := exists_fuel h hfuel
    exact readMembers_of_opensPosix hopen hbody hpair _ _ _ _
  | posix hname hmore ih =>
    obtain ⟨fuel, fuel', rfl, rfl, hle⟩ := exists_fuel h hfuel
    rw [readMembers_posix hname] at h
    obtain ⟨chars, hchars, h⟩ := Read.bind_eq_ok.mp h
    rw [readMembers_posix (posixName?_followedBy hname), readPosix_of_ok _ hchars]
    exact ih hopen h hle
  | @item isFirst cur next place item hmember hname hitem hmore ih =>
    obtain ⟨body, hbody⟩ := exists_append_of_readMembers h hend
    obtain ⟨fuel, fuel', rfl, rfl, hle⟩ := exists_fuel h hfuel
    -- what is left open first is what fails
    by_cases hhere : OpensPosix cur
    · exact readMembers_of_opensPosix hhere hbody hpair _ _ _ _
    rw [readMembers_member (by simp [hbody]) hmember hname, hitem] at h
    obtain ⟨inner, hinner⟩ := exists_append_of_readMembers h hend
    rw [readMembers_member_followedBy hmember hname hitem hbody (by simp [hinner])
      fun hboth => hhere hboth.1]
    exact ih hopen h hle

/-! ## Section 4: Classes with more text -/

/-- A class opens with its bracket, and with a caret if it is negated. -/
theorem OpensWith.length_eq {negated : Bool} {k : Nat} (h : OpensWith cur negated k) :
    k = if negated then 2 else 1 := by
  have hpos := congrArg Cursor.pos h.2
  cases negated <;> simp only [Cursor.advance_pos, if_true, if_false, reduceCtorEq] at hpos ⊢ <;>
    omega

theorem OpensWith.followedBy {negated : Bool} {k : Nat} (h : OpensWith cur negated k)
    (hmore : (cur.advance k).rest ≠ []) : OpensWith (cur.followedBy tail) negated k := by
  have hk := h.length_eq
  obtain ⟨hnegated, -⟩ := h
  have hlength : k < cur.rest.length := by
    rwa [Cursor.advance_rest, ne_eq, List.drop_eq_nil_iff, Nat.not_le] at hmore
  have hone : 1 < cur.rest.length := by
    split at hk <;> omega
  have hadvance : (cur.followedBy tail).advance 1 = (cur.advance 1).followedBy tail :=
    Cursor.advance_followedBy hone.le
  have hinner : (cur.advance 1).rest ≠ [] := by
    rw [Cursor.advance_rest, ne_eq, List.drop_eq_nil_iff]
    omega
  refine ⟨?_, ?_⟩
  · rw [hadvance, Cursor.head?_followedBy hinner, hnegated]
  · rw [hk, Cursor.advance_advance]
    split <;> rfl

variable {source : Text} {traits : ClassTraits} {chars : CharSet} {negated : Bool} {k : Nat}

theorem MemberAt.reaches (h : MemberAt isFirst cur place) : cur.Reaches place := by
  induction h with
  | here => exact Cursor.Reaches.refl _
  | posix hname _ ih => exact (passes_of_posixName? hname).reaches.trans ih
  | item _ _ hitem _ ih => exact (passes_of_readItem hitem).reaches.trans ih

/-- A class without `[:` inside leaves nothing open. -/
theorem not_leavesPosixOpen (h : ¬ HasPair '[' ':' (source.drop 1)) : ¬ LeavesPosixOpen source := by
  intro hopen
  obtain ⟨negated, k, place, hopens, hplace, rest, hrest, -⟩ := hopen
  obtain ⟨n, -, rfl⟩ := hplace.reaches
  have hk := hopens.length_eq
  rw [Cursor.advance_advance] at hrest
  have hpair : HasPair '[' ':' (source.drop (k + n)) := ⟨[], rest, hrest⟩
  exact h (hpair.of_drop (by split at hk <;> omega))

/-- A class that stands alone is read to its end behind its opening. -/
theorem Denotes.exists_readMembers (h : Denotes source traits chars)
    (hopens : OpensWith (.ofText source) negated k) (modes : Modes) :
    ∃ result, readMembers 0 (((Cursor.ofText source).advance k).rest.length + 1) true
        ⟨[], false, false⟩ ((Cursor.ofText source).advance k) =
          .ok (result, ⟨source.length, []⟩) ∧
      traits = ⟨negated, result.hasProperty, result.hasPosix⟩ ∧
      closed modes traits.negated chars = closed modes negated (.unionAll result.sets.reverse) := by
  have hread := h.reads modes
  rw [hopens.read_eq] at hread
  obtain ⟨⟨result, after⟩, hmembers, hpair⟩ := Read.bind_eq_ok.mp hread
  obtain ⟨hleaf, rfl⟩ := Prod.mk.inj (Except.ok.inj hpair)
  obtain ⟨hlabel, -, -⟩ := Escape.Leaf.mk.inj hleaf
  obtain ⟨-, htraits, hchars⟩ := Label.charClass.inj hlabel
  exact ⟨result, hmembers, htraits.symm, hchars.symm⟩

/-- Behind the opening of a class comes its closing bracket at least. -/
theorem Denotes.lt_length (h : Denotes source traits chars)
    (hopens : OpensWith (.ofText source) negated k) : k < source.length := by
  obtain ⟨result, hmembers, -, -⟩ := h.exists_readMembers hopens .none
  obtain ⟨body, hbody⟩ := exists_append_of_readMembers hmembers rfl
  have hlength : (source.drop k).length = body.length + 1 := by
    rw [show source.drop k = body ++ [']'] from hbody, List.length_append, List.length_singleton]
  rw [List.length_drop] at hlength
  omega

/-- A class that stands alone opens the same in front of more text. -/
theorem Denotes.opensWith (h : Denotes source traits chars)
    (hopens : OpensWith (.ofText source) negated k) (tail : Text) :
    OpensWith (.ofText (source ++ tail)) negated k ∧
      (Cursor.ofText (source ++ tail)).advance k =
        ((Cursor.ofText source).advance k).followedBy tail := by
  have hlt : k < (Cursor.ofText source).rest.length := h.lt_length hopens
  refine ⟨hopens.followedBy ?_, Cursor.advance_followedBy hlt.le⟩
  rw [Cursor.advance_rest, ne_eq, List.drop_eq_nil_iff, Nat.not_le]
  exact hlt

/-- A class that stands alone is read the same in front of more text, unless
    it leaves a POSIX class open that the text ends. -/
theorem Denotes.read_followedBy (h : Denotes source traits chars)
    (hclosed : ¬ (LeavesPosixOpen source ∧ HasPair ':' ']' tail)) (modes : Modes) :
    Bracket.read modes (.ofText (source ++ tail)) =
      .ok (⟨.charClass source traits (closed modes traits.negated chars), 0, source.length⟩,
        ⟨source.length, tail⟩) := by
  obtain ⟨rest, hrest⟩ := List.head?_eq_some_iff.mp h.opens
  have hcur : (Cursor.ofText source).rest = '[' :: rest := hrest
  obtain ⟨negated, k, -, -, hopens, -⟩ := exists_opensWith hcur
  obtain ⟨result, hmembers, htraits, hchars⟩ := h.exists_readMembers hopens modes
  obtain ⟨hopens', hinside⟩ := h.opensWith hopens tail
  have hmembers' := readMembers_followedBy hmembers rfl
    (fun place hplace hboth => hclosed ⟨⟨negated, k, place, hopens, hplace, hboth.1⟩, hboth.2⟩)
    (Cursor.ofText (source ++ tail)).pos
    (Nat.succ_le_succ (Cursor.length_rest_followedBy_le _ tail))
  have htake : (source ++ tail).take source.length = source := List.take_left
  rw [hopens'.read_eq, hinside, hchars, htraits]
  refine Read.bind_eq_ok.mpr ⟨_, hmembers', ?_⟩
  simp only [Cursor.followedBy, Cursor.ofText, Nat.sub_zero, htake, List.nil_append]
  rfl

/-- A class that leaves a POSIX class open is not read in front of a text
    that ends it. -/
theorem Denotes.read_leftOpen (h : Denotes source traits chars) (hopen : LeavesPosixOpen source)
    (hpair : HasPair ':' ']' tail) (modes : Modes) :
    ∃ name position, Bracket.read modes (.ofText (source ++ tail)) =
      .error (.fault (.unknownPosixClass name) position) := by
  obtain ⟨negated, k, place, hopens, hplace, hopen⟩ := hopen
  obtain ⟨result, hmembers, -, -⟩ := h.exists_readMembers hopens modes
  obtain ⟨hopens', hinside⟩ := h.opensWith hopens tail
  obtain ⟨name, position, herror⟩ := readMembers_leftOpen hplace hopen hpair hmembers rfl
    (Cursor.ofText (source ++ tail)).pos
    (Nat.succ_le_succ (Cursor.length_rest_followedBy_le _ tail))
  refine ⟨name, position, ?_⟩
  rw [hopens'.read_eq, hinside, herror]
  rfl

end Bracket

/-! ## Section 5: Where classes stand -/

namespace ParserState

variable {text q : Text} {s s' t : ParserState} {n : Node}

/-- No step completes a class, which is a leaf. -/
theorem Completes.kind_ne (h : Completes s s' n) (hnormal : s.IsNormal) : n.kind ≠ .charClass := by
  intro hkind
  rw [Node.kind] at hkind
  cases h with
  | closes houter hclose =>
    obtain ⟨-, hlabel⟩ := start_close hclose (hnormal.nested_of_outer houter).1
    rcases Opener.cases_of_label? hlabel with ⟨_, -, h⟩ | ⟨_, _, -, h⟩ | ⟨_, -, h⟩ <;>
      rw [h] at hkind <;> cases hkind
  | quantifies hlabel =>
    generalize n.label = label at hkind hlabel
    cases label <;> first | exact Bool.noConfusion hlabel | cases hkind

/-- A class that a step adds begins behind where the step began. -/
theorem Change.le_start (h : Change text s s') (hnormal : s.IsNormal) (hn : n ∈ s'.explicit)
    (hkind : n.kind = .charClass) : n ∈ s.explicit ∨ s.cur.pos ≤ n.start := by
  rcases h.mem_explicit hnormal hn with hold | ⟨-, hstart⟩ | hcompletes
  · exact .inl hold
  · exact .inr hstart
  · exact absurd hkind (hcompletes.kind_ne hnormal)

/-- A class that a run adds begins behind where the run began. -/
theorem RunsTo.le_start (h : s.RunsTo t) (hs : (initial text).RunsTo s) (hn : n ∈ t.explicit)
    (hkind : n.kind = .charClass) : n ∈ s.explicit ∨ s.cur.pos ≤ n.start := by
  induction h with
  | refl => exact .inl hn
  | @tail u t hruns hnext ih =>
    have hu := hs.trans hruns
    have hchange := hnext.change (RemembersTargets.of_runsTo hu).place
    rcases hchange.le_start (IsNormal.of_runsTo hu) hn hkind with hold | hnew
    · exact ih hold
    · exact .inr (Nat.le_trans (RunsTo.reaches hruns).pos_le hnew)

/-- What is accepted alone is accepted behind a state in which nothing is open
    and nothing was counted, named or referred to. -/
theorem exists_parse_of_mirrors {p : Pattern} (hruns : (initial text).RunsTo t)
    (hmirrors : Framing.Mirrors ⟨⟨q, 0, false⟩, [], []⟩ (initial q) t) (hrest : t.cur.rest = q)
    (hq : Pattern.parse q = .ok p) : ∃ r, Pattern.parse text = .ok r := by
  obtain ⟨last, root, hlast, hend, hfinish, -⟩ := Pattern.parse_eq_ok_iff.mp hq
  -- both runs read the whole of `q`, and neither has more text behind it
  obtain ⟨n, hn, hcur⟩ := hlast.reaches
  have hmatches : (initial q).cur.Matches t.cur n := .of_rest_eq hrest hn
  cases hmirrors.run nofun hlast.above_nil .refl hcur hmatches (Nat.zero_le _)
    (.of_runsTo hruns) with
  | lost _ hmoves => cases hmoves.1
  | @arrives last' hruns' hcur' hfinal _ =>
    have hend' : last'.cur.rest = [] := by
      rw [hcur', Cursor.advance_rest, hrest, ← hend, hcur]
      rfl
    exact (accepted_iff_of_mirrors (hruns.trans hruns'.runsTo) hend' hfinal hfinish).mpr nofun

end ParserState

/-! ## Section 6: Patterns -/

namespace Pattern

open ParserState

variable {source q : Text} {c p : Pattern} {traits : ClassTraits} {chars : CharSet}

/-- The node of a class at the beginning of a text. -/
def classNode (source : Text) (traits : ClassTraits) (chars : CharSet) : Node :=
  .build 0 (.charClass source traits (Bracket.closed .none traits.negated chars)) 0 source.length []

/-- The state behind a class at the beginning of a text. -/
def behindClass (source : Text) (traits : ClassTraits) (chars : CharSet) (tail : Text) :
    ParserState :=
  ((initial (source ++ tail)).addLeaf ⟨.charClass source traits
    (Bracket.closed .none traits.negated chars), 0, source.length⟩).moveTo ⟨source.length, tail⟩

theorem mirrors_behindClass : Framing.Mirrors ⟨⟨q, 0, false⟩, [], []⟩ (initial q)
    (behindClass source traits chars q) :=
  ((Framing.mirrors_initial q (source ++ q)).addLeaf_right _).moveTo _ _

theorem explicit_behindClass (tail : Text) :
    (behindClass source traits chars tail).explicit = [classNode source traits chars] := rfl

theorem isImplicit_of_kind {n : Node} (hkind : n.kind = .charClass) :
    n.label.isImplicit = false := by
  rw [Node.kind] at hkind
  generalize n.label = label at hkind
  cases label <;> first | rfl | cases hkind

/-- A class has no children. -/
theorem children_of_kind {n : Node} (h : n.IsNormal) (hkind : n.kind = .charClass) :
    n.children = [] := by
  have hsuits := (h n (Node.mem_preorder_self n)).1
  rw [Node.kind] at hkind
  refine (List.map_eq_nil_iff (f := Node.label)).mp ?_
  generalize n.label = label, n.children.map Node.label = labels at hsuits hkind ⊢
  cases hsuits with
  | leaf => rfl
  | _ => cases hkind

/-- A text that begins with a bracket and is parsed as one class is that
    class. -/
theorem exists_denotes_of_parse (hc : Pattern.parse source = .ok c)
    (hhead : source.head? = some '[')
    (hkind : c.root.kind = .charClass) (hstop : c.root.stop = source.length) :
    ∃ traits chars, Bracket.Denotes source traits chars ∧
      c.root.label = (classNode source traits chars).label := by
  obtain ⟨last, root, hruns, hend, hfinish, rfl⟩ := parse_eq_ok_iff.mp hc
  obtain ⟨rest, hrest⟩ := List.head?_eq_some_iff.mp hhead
  have hcur : (initial source).cur.rest = '[' :: rest := hrest
  rcases hruns.cases_head with rfl | ⟨s, ⟨d, rest', hrest', hstep⟩, hmore⟩
  · simp [hcur] at hend
  obtain ⟨rfl, -⟩ := List.cons.inj (hcur.symm.trans hrest')
  -- the first step reads a class, and the root can only be its node
  rw [step_bracket hcur] at hstep
  obtain ⟨⟨leaf, after⟩, hread, hstate⟩ := Read.bind_eq_ok.mp hstep
  obtain rfl := Except.ok.inj hstate
  obtain ⟨found, traits, chars, hdenotes, hsplit, -, rfl⟩ := Bracket.exists_denotes hcur hread
  have hmem := RunsTo.explicit_subset hmore ((mem_explicit_addLeaf rfl).mpr (.inr rfl))
  rw [← (IsNormal.of_runsTo hruns).explicit_finish hfinish] at hmem
  have hnode := Node.explicit_of_leaf (children_of_kind (isNormal_of_parse hc) hkind) _ hmem
  rw [← hnode] at hstop
  have hlength : 0 + found.length = source.length := hstop
  have hprefix : found <+: source := ⟨after.rest, hsplit.symm⟩
  obtain rfl := hprefix.eq_of_length (by omega)
  exact ⟨traits, chars, hdenotes, by rw [← hnode]; rfl⟩

/-- A class in front of more text is read as it is read alone, unless it
    leaves a POSIX class open that the text ends. -/
theorem runsTo_behindClass (h : Bracket.Denotes source traits chars)
    (hclosed : ¬ (Bracket.LeavesPosixOpen source ∧ HasPair ':' ']' q)) :
    (initial (source ++ q)).RunsTo (behindClass source traits chars q) := by
  obtain ⟨rest, rfl⟩ := List.head?_eq_some_iff.mp h.opens
  have hcur : (initial ('[' :: rest ++ q)).cur.rest = '[' :: (rest ++ q) := rfl
  exact .single ⟨'[', _, hcur, (step_bracket hcur).trans
    (Read.bind_eq_ok.mpr ⟨_, h.read_followedBy hclosed .none, rfl⟩)⟩

/-- The class that a pattern begins with is a node of it, and no other class
    begins there. -/
theorem class_of_runsTo {r : Pattern} (h : Bracket.Denotes source traits chars)
    (hruns : (initial (source ++ q)).RunsTo (behindClass source traits chars q))
    (hr : Pattern.parse (source ++ q) = .ok r) :
    classNode source traits chars ∈ r.root.preorder ∧
      ∀ m ∈ r.root.preorder, m.kind = .charClass → m.start = 0 →
        m = classNode source traits chars := by
  obtain ⟨last, root, hlast, hend, hfinish, rfl⟩ := parse_eq_ok_iff.mp hr
  have hmore := hruns.to_end hlast hend
  have hexplicit := (IsNormal.of_runsTo hlast).explicit_finish hfinish
  refine ⟨?mem, fun m hm hkind hstart => ?unique⟩
  case mem =>
    refine (Node.mem_explicit.mp (hexplicit ▸ hmore.explicit_subset ?_)).1
    rw [explicit_behindClass]
    exact List.mem_singleton_self _
  case unique =>
    have hmem : m ∈ last.explicit :=
      hexplicit ▸ Node.mem_explicit.mpr ⟨hm, isImplicit_of_kind hkind⟩
    rcases hmore.le_start hruns hmem hkind with hfirst | hbehind
    · rw [explicit_behindClass] at hfirst
      exact List.mem_singleton.mp hfirst
    · -- the class is not empty
      obtain ⟨rest, rfl⟩ := List.head?_eq_some_iff.mp h.opens
      have hle : ('[' :: rest).length ≤ m.start := hbehind
      simp [hstart] at hle

/-- A class is read as it is read alone in front of every accepted text,
    unless it leaves a POSIX class open and the text has `:]` somewhere.  Then
    the whole is rejected. -/
theorem class_followed (hc : Pattern.parse source = .ok c) (hhead : source.head? = some '[')
    (hkind : c.root.kind = .charClass) (hstop : c.root.stop = source.length)
    (hq : Pattern.parse q = .ok p) :
    (¬ (Bracket.LeavesPosixOpen source ∧ HasPair ':' ']' q) →
      ∃ r n, Pattern.parse (source ++ q) = .ok r ∧ n ∈ r.root.preorder ∧ n.start = 0 ∧
        n.stop = source.length ∧ n.label = c.root.label ∧
        ∀ m ∈ r.root.preorder, m.kind = .charClass → m.start = 0 → m = n) ∧
    (Bracket.LeavesPosixOpen source ∧ HasPair ':' ']' q →
      ∃ name position, Pattern.parse (source ++ q) =
        .error (.malformed ⟨.unknownPosixClass name, position, source ++ q⟩)) := by
  obtain ⟨traits, chars, hdenotes, hlabel⟩ := exists_denotes_of_parse hc hhead hkind hstop
  constructor
  case left =>
    intro hclosed
    -- behind the class the run mirrors that of the text alone
    have hruns := runsTo_behindClass (q := q) hdenotes hclosed
    obtain ⟨r, hr⟩ := exists_parse_of_mirrors hruns mirrors_behindClass rfl hq
    obtain ⟨hmem, hunique⟩ := class_of_runsTo hdenotes hruns hr
    exact ⟨r, classNode source traits chars, hr, hmem, rfl, rfl, hlabel.symm, hunique⟩
  case right =>
    intro hboth
    obtain ⟨name, position, herror⟩ := hdenotes.read_leftOpen hboth.1 hboth.2 .none
    obtain ⟨rest, rfl⟩ := List.head?_eq_some_iff.mp hhead
    -- the first step already fails
    have hcur : (initial ('[' :: rest ++ q)).cur.rest = '[' :: (rest ++ q) := rfl
    have hstep : (initial ('[' :: rest ++ q)).step '[' =
        .error (.fault (.unknownPosixClass name) position) :=
      (step_bracket hcur).trans (congrArg (· >>= _) herror)
    exact ⟨name, position, parse_of_step_error .refl hcur hstep⟩

/-- `[:` at the beginning of a class, in front of a letter and in front of a
    class that ends with `:]`. -/
theorem class_followed_of_open :
    (∃ r n, Pattern.parse "[[:a]b".toList = .ok r ∧ n ∈ r.root.preorder ∧ n.start = 0 ∧
      n.stop = 5 ∧ n.kind = .charClass) ∧
    ∃ e, Pattern.parse "[[:a][b:]".toList = .error (.malformed e) := by
  have hclass : (Pattern.parse "[[:a]".toList).toOption.any
      (fun c => c.root.kind == .charClass && c.root.stop == 5) = true := by decide +kernel
  have hletter : (Pattern.parse ['b']).toOption.any (fun _ => true) = true := by decide +kernel
  have hmore : (Pattern.parse "[b:]".toList).toOption.any (fun _ => true) = true := by
    decide +kernel
  obtain ⟨c, hc, hcheck⟩ := exists_of_check hclass
  rw [Bool.and_eq_true, beq_iff_eq, beq_iff_eq] at hcheck
  obtain ⟨b, hb, -⟩ := exists_of_check hletter
  obtain ⟨p, hp, -⟩ := exists_of_check hmore
  have hnone : ¬ HasPair ':' ']' ['b'] := Cursor.beforePair?_eq_none_iff.mp (by decide)
  have hpair : HasPair ':' ']' "[b:]".toList := ⟨['[', 'b'], [], rfl⟩
  have hopen : Bracket.LeavesPosixOpen "[[:a]".toList :=
    ⟨false, 1, _, ⟨rfl, rfl⟩, .here, ['a', ']'], rfl, Cursor.beforePair?_eq_none_iff.mp (by decide)⟩
  obtain ⟨r, n, hr, hn, hstart, hstop, hlabel, -⟩ :=
    (class_followed hc rfl hcheck.1 hcheck.2 hb).1 fun hboth => hnone hboth.2
  obtain ⟨name, position, herror⟩ :=
    (class_followed hc rfl hcheck.1 hcheck.2 hp).2 ⟨hopen, hpair⟩
  refine ⟨⟨r, n, hr, hn, hstart, hstop, ?_⟩, _, herror⟩
  rw [Node.kind, hlabel]
  exact hcheck.1

/-- A class and an accepted text that are rejected together. -/
theorem not_class_followed :
    ∃ c p, Pattern.parse "[[:a]".toList = .ok c ∧ c.root.kind = .charClass ∧ c.root.start = 0 ∧
      c.root.stop = 5 ∧ Pattern.parse "[b:]".toList = .ok p ∧
      ¬ ∃ r, Pattern.parse "[[:a][b:]".toList = .ok r := by
  have hclass : (Pattern.parse "[[:a]".toList).toOption.any
      (fun c => c.root.kind == .charClass && c.root.start == 0 && c.root.stop == 5) = true := by
    decide +kernel
  have hmore : (Pattern.parse "[b:]".toList).toOption.any (fun _ => true) = true := by
    decide +kernel
  obtain ⟨c, hc, hcheck⟩ := exists_of_check hclass
  simp only [Bool.and_eq_true, beq_iff_eq] at hcheck
  obtain ⟨p, hp, -⟩ := exists_of_check hmore
  refine ⟨c, p, hc, hcheck.1.1, hcheck.1.2, hcheck.2, hp, ?_⟩
  have hnone : (Pattern.parse "[[:a][b:]".toList).toOption.isNone = true := by decide +kernel
  intro haccepted
  obtain ⟨r, hr⟩ := haccepted
  rw [hr] at hnone
  cases hnone

end Pattern

end RegexInsight
