import RegexInsight.Pattern.Escape

/-! # Bracket Classes

    A bracket class lists its members one by one, as ranges, as shorthands
    or as POSIX classes.  A `]` directly after the opening bracket, or
    after the negating caret, stands for itself. -/

namespace RegexInsight

namespace Bracket

/-- One member read in a class: the characters it stands for, the single
    character if it is one, and whether it is a property. -/
structure Atom where
  chars : CharSet
  single : Option CodePoint
  isProperty : Bool
  deriving Repr

/-- The atom of one character. -/
def Atom.char (c : CodePoint) : Atom := ⟨.single c, some c, false⟩

/-- Reads one member; the class is not at its end. -/
def readAtom (cur : Cursor) : Read (Atom × Cursor) :=
  let start := cur.pos
  match cur.rest with
  | [] => .fail .unclosedClass start
  | '\\' :: [] => .fail .unclosedClass start
  | '\\' :: c :: _ =>
    let after := cur.advance 2
    if let some shorthand := Shorthand.ofChar? c then
      .ok (⟨shorthand.chars, none, false⟩, after)
    else if c == 'p' || c == 'P' then do
      let (chars, stop) ← Escape.readProperty start (c == 'P') after
      return (⟨chars, none, true⟩, stop)
    else if c == 'b' then .ok (.char 0x08, after)
    else if let some code := Escape.control? c then .ok (.char code, after)
    else if let some width := Escape.hexWidth? c then do
      let (code, stop) ← Escape.readHex start c width after
      return (.char code, stop)
    else if Escape.isOctal c then do
      let (code, stop) ← Escape.readOctal start c after
      return (.char code, stop)
    else if isAlphanumeric c || c == '_' then .fail (.unknownClassEscape c) start
    else .ok (.char c.toNat, after)
  | c :: _ => .ok (.char c.toNat, cur.advance 1)

/-- Reads a member or a range of two single characters. -/
def readItem (cur : Cursor) : Read ((CharSet × Bool) × Cursor) := do
  let (low, afterLow) ← readAtom cur
  match low.single, afterLow.rest with
  | some lo, '-' :: next :: _ =>
    if next == ']' then return ((low.chars, low.isProperty), afterLow)
    else do
      let (high, afterHigh) ← readAtom (afterLow.advance 1)
      match high.single with
      | none => .fail .openRange cur.pos
      | some hi =>
        if hi < lo then .fail (.reversedRange lo hi) cur.pos
        else return ((.span lo hi, low.isProperty), afterHigh)
  | _, _ => return ((low.chars, low.isProperty), afterLow)

/-- The members of a class read so far. -/
structure Members where
  sets : List CharSet
  hasProperty : Bool
  hasPosix : Bool
  deriving Repr

/-- A POSIX class such as `[:alpha:]` or `[:^alpha:]` at the cursor, if its
    end is found. -/
def posixName? (cur : Cursor) : Option (Text × Cursor) :=
  match cur.rest with
  | '[' :: ':' :: _ => (cur.advance 2).upToPair? ':' ']'
  | _ => none

/-- The set of a POSIX class by its name, with the carets that negate
    it. -/
def readPosix (position : Nat) (written : Text) : Read CharSet :=
  let name := written.dropWhile (· == '^')
  match posixClass? name with
  | none => .fail (.unknownPosixClass name) position
  | some chars => .ok (if written.head? == some '^' then chars.complement else chars)

/-- Reads members up to the closing bracket.  Every member has at least one
    character, so a fuel of the remaining length is enough. -/
def readMembers (start : Nat) : Nat → Bool → Members → Cursor → Read (Members × Cursor)
  | 0, _, _, _ => .fail .unclosedClass start
  | fuel + 1, isFirst, members, cur =>
    match cur.rest with
    | [] => .fail .unclosedClass start
    | c :: _ =>
      if c == ']' && !isFirst then .ok (members, cur.advance 1)
      else
        match posixName? cur with
        | some (written, after) => do
          let chars ← readPosix cur.pos written
          readMembers start fuel false
            { members with sets := chars :: members.sets, hasPosix := true } after
        | none => do
          let ((chars, isProperty), after) ← readItem cur
          readMembers start fuel false
            { members with
              sets := chars :: members.sets
              hasProperty := members.hasProperty || isProperty } after

/-- Reads a class from its opening bracket on. -/
def read (modes : Modes) (cur : Cursor) : Read (Escape.Leaf × Cursor) := do
  let inside := cur.advance 1
  let negated := inside.rest.head? == some '^'
  let inside := if negated then inside.advance 1 else inside
  let (members, after) ←
    readMembers cur.pos (inside.rest.length + 1) true ⟨[], false, false⟩ inside
  let chars := modes.accepts (.unionAll members.sets.reverse)
  let chars := if negated then chars.complement else chars
  let source := cur.rest.take (after.pos - cur.pos)
  return (⟨.charClass source ⟨negated, members.hasProperty, members.hasPosix⟩ chars,
    cur.pos, after.pos⟩, after)

end Bracket

end RegexInsight
