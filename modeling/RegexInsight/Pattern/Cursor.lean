import RegexInsight.Pattern.Fault
import RegexInsight.Unicode.Letter

/-! # Cursor

    A place in a pattern: the characters still to be read and the number
    of those already read.  Every reader takes a cursor and returns what it
    read with the cursor after it, or the fault that stops it. -/

namespace RegexInsight

/-- Why a reader stops. -/
inductive ReadError where
  | fault (fault : Fault) (position : Nat)
  | numeral (error : NumeralError)
  deriving DecidableEq, Repr

/-- The outcome of a reader. -/
abbrev Read := Except ReadError

/-- Stops with a fault at a position. -/
def Read.fail {α : Type} (fault : Fault) (position : Nat) : Read α :=
  .error (.fault fault position)

/-- Reads a numeral that has to be in range. -/
def Read.number (text : Text) : Read Nat :=
  match Numeral.read text with
  | .ok n => .ok n
  | .error e => .error (.numeral e)

/-- The numeral of a number that has to be in range. -/
def Read.numeralOf (n : Nat) : Read Text :=
  match Numeral.write n with
  | .ok text => .ok text
  | .error e => .error (.numeral e)

/-- A place in a pattern. -/
structure Cursor where
  pos : Nat
  rest : Text
  deriving DecidableEq, Repr

namespace Cursor

/-- The start of a pattern. -/
def ofText (pattern : Text) : Cursor := ⟨0, pattern⟩

/-- The cursor after `n` more characters. -/
def advance (cur : Cursor) (n : Nat) : Cursor :=
  ⟨cur.pos + n, cur.rest.drop n⟩

/-- The text up to the next `stop`, and the cursor after that `stop`. -/
def upTo? (cur : Cursor) (stop : Char) : Option (Text × Cursor) :=
  let found := cur.rest.takeWhile (· != stop)
  if found.length < cur.rest.length then some (found, cur.advance (found.length + 1))
  else none

/-- The text up to the next occurrence of two characters in a row. -/
def beforePair? (a b : Char) : Text → Option Text
  | [] => none
  | [_] => none
  | c :: d :: rest =>
    if c == a && d == b then some []
    else (beforePair? a b (d :: rest)).map (c :: ·)

/-- The text up to the next occurrence of two characters in a row, and the
    cursor after them. -/
def upToPair? (cur : Cursor) (a b : Char) : Option (Text × Cursor) :=
  (beforePair? a b cur.rest).map fun found => (found, cur.advance (found.length + 2))

/-- The longest run of characters with a property, and the cursor after
    it. -/
def run (cur : Cursor) (p : Char → Bool) : Text × Cursor :=
  let found := cur.rest.takeWhile p
  (found, cur.advance found.length)

/-- Reads a group name up to its terminator. -/
def readName (cur : Cursor) (terminator : Char) : Read (Text × Cursor) :=
  match cur.upTo? terminator with
  | none => .fail (.unclosedName terminator) cur.pos
  | some (name, after) =>
    if isGroupName name then .ok (name, after) else .fail (.badName name) cur.pos

end Cursor

end RegexInsight
