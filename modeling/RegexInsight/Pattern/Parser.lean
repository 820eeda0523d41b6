import RegexInsight.Pattern.Bounds
import RegexInsight.Pattern.Bracket
import RegexInsight.Pattern.Frame
import RegexInsight.Unicode.Space

/-! # Parser

    Reads a pattern in one pass.  The state holds the place in the
    pattern, the open groups as a stack of frames, the number of completed
    nodes, the groups opened so far with their names, and the references
    that are still to be checked.  Every step reads at least one
    character; references are checked when the pattern has ended.

    The accepted language is the union of what the known dialects
    understand, so a parsed pattern need not suit any single one. -/

namespace RegexInsight

/-- A reference that was read: its target and where it stands. -/
structure Reference where
  target : Text
  position : Nat
  deriving DecidableEq, Repr

/-- The state of reading a pattern. -/
structure ParserState where
  cur : Cursor
  frame : Frame
  /-- The frames around the current one, the nearest first. -/
  outer : List Frame
  /-- The number of nodes completed. -/
  count : Nat
  /-- The number of capturing groups opened. -/
  groups : Nat
  /-- The named groups in order of definition, with their numbers. -/
  names : List (Text × Nat)
  /-- The references read, the latest first. -/
  references : List Reference
  deriving Repr

namespace ParserState

/-- The state before the first character. -/
def initial (pattern : Text) : ParserState where
  cur := .ofText pattern
  frame := .opened .root 0 .none
  outer := []
  count := 0
  groups := 0
  names := []
  references := []

/-! ## Section 1: Elementary changes -/

/-- Moves the cursor. -/
def moveTo (s : ParserState) (cur : Cursor) : ParserState :=
  { s with cur := cur }

/-- Appends a leaf to the current branch. -/
def addLeaf (s : ParserState) (leaf : Escape.Leaf) : ParserState :=
  { s with
    frame := s.frame.push (.build s.count leaf.label leaf.start leaf.stop [])
    count := s.count + 1 }

/-- Remembers a reference. -/
def refer (s : ParserState) (target : Text) (position : Nat) : ParserState :=
  { s with references := ⟨target, position⟩ :: s.references }

/-- Opens a frame inside the current one. -/
def enter (s : ParserState) (opener : Opener) (start : Nat) (modes : Modes) (cur : Cursor) :
    ParserState :=
  { s with cur := cur, frame := .opened opener start modes, outer := s.frame :: s.outer }

/-! ## Section 2: Opening a group -/

/-- Opens an unnamed capturing group. -/
def enterCapturing (s : ParserState) (start : Nat) (cur : Cursor) : ParserState :=
  { s with groups := s.groups + 1 }.enter
    (.group (.capturing (s.groups + 1))) start s.frame.modes cur

/-- Opens a named group whose name follows. -/
def enterNamed (s : ParserState) (start : Nat) (cur : Cursor) (terminator : Char)
    (spelling : NameSpelling) : Read ParserState := do
  let (name, after) ← cur.readName terminator
  if s.names.any fun entry => entry.1 == name then .fail (.duplicateName name) start
  else
    let index := s.groups + 1
    return { s with groups := index, names := s.names ++ [(name, index)] }.enter
      (.group (.named index name spelling)) start s.frame.modes after

/-- Reads a named reference up to the closing parenthesis. -/
def readNamedReference (s : ParserState) (start : Nat) (cur : Cursor)
    (label : Text → Label) : Read ParserState := do
  let (name, after) ← cur.readName ')'
  return ((s.refer name start).addLeaf ⟨label name, start, after.pos⟩).moveTo after

/-- A numeral with an optional sign. -/
def isRecursionTarget (target : Text) : Bool :=
  let digits := match target with
    | '+' :: rest => rest
    | '-' :: rest => rest
    | other => other
  !digits.isEmpty && digits.all isDecimal

/-- Reads a recursion such as `(?R)`, `(?1)` or `(?-1)` from its target
    on. -/
def readRecursion (s : ParserState) (start : Nat) (cur : Cursor) : Read ParserState :=
  match cur.upTo? ')' with
  | none => .fail .badRecursion start
  | some (target, after) =>
    let leaf : Escape.Leaf := ⟨.recursion target, start, after.pos⟩
    if target == ['R'] then .ok ((s.addLeaf leaf).moveTo after)
    else if isRecursionTarget target then do
      let reference ← Escape.absoluteReference start s.groups target
      return ((s.refer reference start).addLeaf leaf).moveTo after
    else .fail .badRecursion start

/-- Opens a conditional whose condition follows. -/
def enterConditional (s : ParserState) (start : Nat) (cur : Cursor) : Read ParserState :=
  match cur.upTo? ')' with
  | none => .fail .badCondition start
  | some (condition, after) =>
    if isDigitText condition || isGroupName condition then
      .ok ((s.refer condition start).enter (.conditional condition) start s.frame.modes after)
    else .fail .badCondition start

/-- Letters and dashes of an inline flag group. -/
def isFlagChar (c : Char) : Bool :=
  Fault.flagLetters.contains c || c == '-'

/-- Reads inline flags: before `)` they hold up to the end of the enclosing
    group, before `:` only in the group that they open. -/
def readFlags (s : ParserState) (start : Nat) (cur : Cursor) : Read ParserState :=
  let (text, after) := cur.run isFlagChar
  match after.rest with
  | ')' :: _ =>
    let stop := after.advance 1
    let modes := s.frame.modes.apply text
    .ok (({ s with frame := { s.frame with modes := modes } }.addLeaf
      ⟨.flags text, start, stop.pos⟩).moveTo stop)
  | ':' :: _ =>
    .ok (s.enter (.group (.nonCapturing (some text))) start (s.frame.modes.apply text)
      (after.advance 1))
  | rest => .fail (.unknownFlag (['(', '?'] ++ text ++ rest.take 1)) after.pos

/-- Reads from the character after `(?` on. -/
def readExtension (s : ParserState) (start : Nat) (cur : Cursor) : Read ParserState :=
  let modes := s.frame.modes
  match cur.rest with
  | [] => .fail .endOfGroupHead start
  | '#' :: _ =>
    match cur.upTo? ')' with
    | none => .fail .unclosedComment start
    | some (_, after) => .ok (s.moveTo after)
  | ':' :: _ | '|' :: _ =>
    .ok (s.enter (.group (.nonCapturing none)) start modes (cur.advance 1))
  | '>' :: _ => .ok (s.enter (.group .atomic) start modes (cur.advance 1))
  | '=' :: _ => .ok (s.enter (.lookaround .ahead false) start modes (cur.advance 1))
  | '!' :: _ => .ok (s.enter (.lookaround .ahead true) start modes (cur.advance 1))
  | '<' :: '=' :: _ => .ok (s.enter (.lookaround .behind false) start modes (cur.advance 2))
  | '<' :: '!' :: _ => .ok (s.enter (.lookaround .behind true) start modes (cur.advance 2))
  | '<' :: _ => s.enterNamed start (cur.advance 1) '>' .angle
  | '\'' :: _ => s.enterNamed start (cur.advance 1) '\'' .quote
  | 'P' :: '<' :: _ => s.enterNamed start (cur.advance 2) '>' .pAngle
  | 'P' :: '=' :: _ => s.readNamedReference start (cur.advance 2) .backreference
  | 'P' :: '>' :: _ => s.readNamedReference start (cur.advance 2) .recursion
  | '&' :: _ => s.readNamedReference start (cur.advance 1) .recursion
  | '(' :: _ => s.enterConditional start (cur.advance 1)
  | c :: rest =>
    if c == 'R' || isDigitChar c
        || ((c == '+' || c == '-') && (rest.head?.map isDigitChar).getD false) then
      s.readRecursion start cur
    else if isFlagChar c then s.readFlags start cur
    else .fail (.unknownExtension c) start

/-- Reads an opening parenthesis and what it opens. -/
def readOpening (s : ParserState) : Read ParserState :=
  let start := s.cur.pos
  match s.cur.rest.drop 1 with
  | '?' :: _ => s.readExtension start (s.cur.advance 2)
  | _ => .ok (s.enterCapturing start (s.cur.advance 1))

/-! ## Section 3: Closing and repeating -/

/-- Reads a closing parenthesis: closes the current frame and appends its
    node to the frame around it. -/
def readClosing (s : ParserState) : Read ParserState :=
  match s.outer with
  | [] => .fail .unbalancedParenthesis s.cur.pos
  | frame :: outer => do
    let after := s.cur.advance 1
    let (node, count) ← s.frame.close s.count after.pos
    return { s with cur := after, frame := frame.push node, outer := outer, count := count }

/-- Applies a quantifier with its bounds, read up to `cur`, to the last item
    of the current branch. -/
def applyQuantifier (s : ParserState) (bounds : Bounds) (cur : Cursor) : Read ParserState := do
  let start := s.cur.pos
  if let some high := bounds.max then
    if high < bounds.min then
      .fail (.reversedBounds bounds.min high) start
  if s.frame.quantified then .fail .multipleRepeat start
  else
    match s.frame.items with
    | [] => .fail .nothingToRepeat start
    | item :: items =>
      if item.label.isRepeatable then
        let (mode, after) := QuantifierMode.read cur
        let node := .build s.count (.quantifier bounds mode) item.start after.pos [item]
        return { s with
          cur := after
          frame := { s.frame with items := node :: items, quantified := true }
          count := s.count + 1 }
      else .fail .nothingToRepeat start

/-! ## Section 4: One step -/

/-- Appends the leaves of an escape. -/
def readEscape (s : ParserState) : Read ParserState := do
  let (reading, after) ← Escape.read s.frame.modes s.groups s.cur
  let referred := match reading.reference with
    | some target => s.refer target s.cur.pos
    | none => s
  return (reading.leaves.foldl addLeaf referred).moveTo after

/-- Appends a bracket class. -/
def readBracket (s : ParserState) : Read ParserState := do
  let (leaf, after) ← Bracket.read s.frame.modes s.cur
  return (s.addLeaf leaf).moveTo after

/-- Appends a leaf of one character. -/
def readOne (s : ParserState) (label : Label) : ParserState :=
  (s.addLeaf ⟨label, s.cur.pos, s.cur.pos + 1⟩).moveTo (s.cur.advance 1)

/-- The cursor after whitespace or a comment that verbose mode skips, if
    there is one. -/
def skipped? (s : ParserState) : Option Cursor :=
  match s.cur.rest with
  | [] => none
  | c :: _ =>
    if !s.frame.modes.verbose then none
    else if isSpace c then some (s.cur.advance 1)
    else if c == '#' then
      some (match s.cur.upTo? '\n' with
        | some (_, after) => after
        | none => s.cur.advance s.cur.rest.length)
    else none

/-- Reads what begins with the character `c` at the cursor. -/
def readAt (s : ParserState) (c : Char) : Read ParserState :=
  if c == '(' then s.readOpening
  else if c == ')' then s.readClosing
  else if c == '|' then .ok ({ s with frame := s.frame.nextBranch }.moveTo (s.cur.advance 1))
  else do
    match ← Bounds.read? s.cur with
    | some (bounds, after) => s.applyQuantifier bounds after
    | none =>
      if c == '[' then s.readBracket
      else if c == '\\' then s.readEscape
      else if c == '.' then return s.readOne s.frame.modes.dot
      else if c == '^' then return s.readOne (.anchor .lineStart)
      else if c == '$' then return s.readOne (.anchor .lineEnd)
      else return s.readOne (s.frame.modes.literal c.toNat)

/-- One step: skips, or reads what the next character begins. -/
def step (s : ParserState) (c : Char) : Read ParserState :=
  match s.skipped? with
  | some after => .ok (s.moveTo after)
  | none => s.readAt c

/-- Takes steps up to the end of the pattern, at most `fuel` of them.  Each
    step reads a character, so the length of the pattern is enough. -/
def run : Nat → ParserState → Read ParserState
  | 0, s => .ok s
  | fuel + 1, s =>
    match s.cur.rest with
    | [] => .ok s
    | c :: _ =>
      match s.step c with
      | .ok next => run fuel next
      | .error e => .error e

/-! ## Section 5: References -/

/-- A reference is a number from 1 to the number of groups, or the name of a
    group. -/
def checkReference (s : ParserState) (r : Reference) : Read Unit :=
  if isDigitText r.target then do
    let number ← Read.number r.target
    if number == 0 || number > s.groups then
      .fail (.invalidReference number s.groups) r.position
    else return
  else if s.names.any fun entry => entry.1 == r.target then .ok ()
  else .fail (.unknownName r.target) r.position

/-- Checks the references in the order in which they were read. -/
def checkReferences (s : ParserState) : Read Unit :=
  s.references.reverse.forM s.checkReference

/-- Ends the pattern: all groups are closed and all references are good. -/
def finish (s : ParserState) : Read Node :=
  match s.outer with
  | _ :: _ => .fail .unclosedGroup s.frame.start
  | [] => do
    let (root, _) ← s.frame.close s.count s.cur.pos
    s.checkReferences
    return root

end ParserState

end RegexInsight
