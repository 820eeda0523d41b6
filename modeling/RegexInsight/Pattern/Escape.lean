import RegexInsight.Pattern.Modes

/-! # Escapes

    What follows a backslash: character codes, properties and references,
    and outside a bracket class also shorthands, anchors and quoted
    text. -/

namespace RegexInsight

namespace Escape

/-! ## Section 1: Character codes -/

/-- The control character that a letter names. -/
def control? : Char → Option CodePoint
  | 'n' => some 0x0A
  | 't' => some 0x09
  | 'r' => some 0x0D
  | 'f' => some 0x0C
  | 'v' => some 0x0B
  | 'a' => some 0x07
  | 'e' => some 0x1B
  | _ => none

/-- The value of an ASCII hexadecimal digit. -/
def hexValue? (c : Char) : Option Nat :=
  if '0' ≤ c && c ≤ '9' then some (c.toNat - '0'.toNat)
  else if 'a' ≤ c && c ≤ 'f' then some (c.toNat - 'a'.toNat + 10)
  else if 'A' ≤ c && c ≤ 'F' then some (c.toNat - 'A'.toNat + 10)
  else none

def isHex (c : Char) : Bool := (hexValue? c).isSome

def isOctal (c : Char) : Bool := '0' ≤ c && c ≤ '7'

/-- The value of hexadecimal or octal digits in a base. -/
def valueIn (base : Nat) (digits : Text) : Nat :=
  digits.foldl (fun total c => base * total + (hexValue? c).getD 0) 0

/-- The letters that introduce a hexadecimal code, with its width. -/
def hexWidth? : Char → Option Nat
  | 'x' => some 2
  | 'u' => some 4
  | 'U' => some 8
  | _ => none

/-- The digits of a hexadecimal code and the cursor after it: those in
    braces after `x`, else exactly as many as the letter asks for. -/
def hexDigits? (letter : Char) (width : Nat) (cur : Cursor) : Option (Text × Cursor) :=
  if letter == 'x' && cur.rest.head? == some '{' then
    (cur.advance 1).upTo? '}'
  else
    let digits := cur.rest.take width
    if digits.length == width then some (digits, cur.advance width) else none

/-- Reads a hexadecimal code after its letter. -/
def readHex (start : Nat) (letter : Char) (width : Nat) (cur : Cursor) :
    Read (CodePoint × Cursor) :=
  match hexDigits? letter width cur with
  | none => .fail (.incompleteHex letter) start
  | some (digits, after) =>
    if digits.isEmpty || !digits.all isHex then .fail (.incompleteHex letter) start
    else if valueIn 16 digits > maxCodePoint then .fail (.hexOutOfRange letter digits) start
    else .ok (valueIn 16 digits, after)

/-- The character of an octal code. -/
def octalCode (start : Nat) (digits : Text) : Read CodePoint :=
  if valueIn 8 digits > 0o377 then .fail (.octalOutOfRange digits) start
  else .ok (valueIn 8 digits)

/-- Reads an octal code whose first digit is given: up to two more. -/
def readOctal (start : Nat) (first : Char) (cur : Cursor) : Read (CodePoint × Cursor) := do
  let more := (cur.rest.take 2).takeWhile isOctal
  let code ← octalCode start (first :: more)
  return (code, cur.advance more.length)

/-! ## Section 2: Unicode properties -/

/-- The name of a property and the cursor after it: in braces, or one
    letter. -/
def propertyName (start : Nat) (cur : Cursor) : Read (Text × Cursor) :=
  match cur.rest with
  | [] => .fail .incompleteProperty start
  | c :: _ =>
    if c == '{' then
      match (cur.advance 1).upTo? '}' with
      | none => .fail .unclosedProperty start
      | some found => .ok found
    else if isLetter c then .ok ([c], cur.advance 1)
    else .fail .incompleteProperty start

/-- Reads a property after its letter: a caret before the name negates, and
    what a negated property matches is bounded by nothing. -/
def readProperty (start : Nat) (negated : Bool) (cur : Cursor) : Read (CharSet × Cursor) := do
  let (written, after) ← propertyName start cur
  let negated := if written.head? == some '^' then !negated else negated
  let name := if written.head? == some '^' then written.drop 1 else written
  if name.isEmpty then .fail .emptyProperty start
  else return (if negated then .everything else .unicodeProperty, after)

/-! ## Section 3: References -/

/-- A sign followed by decimal digits. -/
def signedDigits? : Text → Option (Bool × Text)
  | c :: digits =>
    if (c == '+' || c == '-') && !digits.isEmpty && digits.all isDecimal then
      some (c == '-', digits)
    else none
  | [] => none

/-- The group that a reference means when `groups` groups have been opened:
    `-1` is the last opened group, `+1` the next one to open, and anything
    unsigned stands for itself. -/
def absoluteReference (start groups : Nat) (target : Text) : Read Text :=
  match signedDigits? target with
  | some (backward, digits) => do
    let offset ← Read.number digits
    let group :=
      if backward && offset > 0 then groups + 1 - offset else groups + offset
    if group == 0 then .fail (.referenceBeforeFirst target) start
    else Read.numeralOf group
  | none =>
    if isDigitText target || isGroupName target then .ok target
    else .fail (.badReference target) start

/-! ## Section 4: Escapes outside a class -/

/-- A leaf that was read: its label and its span. -/
structure Leaf where
  label : Label
  start : Nat
  stop : Nat
  deriving Repr

/-- The leaves of an escape, and the target of a reference among them. -/
structure Reading where
  leaves : List Leaf
  reference : Option Text
  deriving Repr

/-- A reading of one leaf that refers to nothing. -/
def Reading.leaf (label : Label) (start stop : Nat) : Reading :=
  ⟨[⟨label, start, stop⟩], none⟩

/-- Reads digits after a backslash: three octal digits are a character
    code, anything else refers to a group by one or two digits. -/
def readNumbered (modes : Modes) (start : Nat) (first : Char) (cur : Cursor) :
    Read (Reading × Cursor) :=
  let more := (cur.rest.take 2).takeWhile isDigitChar
  let digits := first :: more
  if digits.length == 3 && digits.all isOctal then do
    let code ← octalCode start digits
    let after := cur.advance more.length
    return (.leaf (modes.literal code) start after.pos, after)
  else
    let target := digits.take 2
    let after := cur.advance (target.length - 1)
    .ok (⟨[⟨.backreference target, start, after.pos⟩], some target⟩, after)

/-- The character that closes a name opened by another. -/
def closing? : Char → Option Char
  | '<' => some '>'
  | '\'' => some '\''
  | '{' => some '}'
  | _ => none

/-- Reads `\k<name>`, `\k'name'` or `\k{name}` after its letter. -/
def readNamed (start : Nat) (cur : Cursor) : Read (Reading × Cursor) :=
  match cur.rest.head?.bind closing? with
  | none => .fail .incompleteNameReference start
  | some terminator => do
    let (name, after) ← (cur.advance 1).readName terminator
    return (⟨[⟨.backreference name, start, after.pos⟩], some name⟩, after)

/-- A backreference to a target that may be relative. -/
def backreference (start groups : Nat) (target : Text) (after : Cursor) :
    Read (Reading × Cursor) := do
  let target ← absoluteReference start groups target
  return (⟨[⟨.backreference target, start, after.pos⟩], some target⟩, after)

/-- Reads what follows `\g`: a call in angle brackets or quotes, else a
    backreference in braces or by its digits. -/
def readGeneral (start groups : Nat) (cur : Cursor) : Read (Reading × Cursor) :=
  match cur.rest with
  | '<' :: _ => call '>'
  | '\'' :: _ => call '\''
  | '{' :: _ =>
    match (cur.advance 1).upTo? '}' with
    | none => .fail .unclosedBracedReference start
    | some (target, after) => backreference start groups target after
  | _ =>
    let sign := if cur.rest.head? == some '-' then ['-'] else []
    let (digits, after) := (cur.advance sign.length).run isDecimal
    if digits.isEmpty then .fail .incompleteReference start
    else backreference start groups (sign ++ digits) after
where
  call (terminator : Char) : Read (Reading × Cursor) :=
    match (cur.advance 1).upTo? terminator with
    | none => .fail (.unclosedReference terminator) start
    | some (target, after) =>
      let leaves : List Leaf := [⟨.recursion target, start, after.pos⟩]
      if target == ['0'] then .ok (⟨leaves, none⟩, after)
      else do
        let reference ← absoluteReference start groups target
        return (⟨leaves, some reference⟩, after)

/-- Literals for the characters of a quoted text, one after the other. -/
def quotedLeaves (modes : Modes) (pos : Nat) : Text → List Leaf
  | [] => []
  | c :: rest => ⟨modes.literal c.toNat, pos, pos + 1⟩ :: quotedLeaves modes (pos + 1) rest

/-- Reads quoted text up to `\E` or to the end of the pattern. -/
def readQuoted (modes : Modes) (cur : Cursor) : Reading × Cursor :=
  match cur.upToPair? '\\' 'E' with
  | some (text, after) => (⟨quotedLeaves modes cur.pos text, none⟩, after)
  | none => (⟨quotedLeaves modes cur.pos cur.rest, none⟩, cur.advance cur.rest.length)

/-- Reads an escape from its backslash on. -/
def read (modes : Modes) (groups : Nat) (cur : Cursor) : Read (Reading × Cursor) :=
  let start := cur.pos
  match cur.rest.drop 1 with
  | [] => .fail .trailingBackslash start
  | c :: _ =>
    let after := cur.advance 2
    if let some shorthand := Shorthand.ofChar? c then
      .ok (.leaf (.charClass ['\\', c] .plain shorthand.chars) start after.pos, after)
    else if let some anchor := Anchor.ofEscape? c then
      .ok (.leaf (.anchor anchor) start after.pos, after)
    else if let some code := control? c then
      .ok (.leaf (modes.literal code) start after.pos, after)
    else if c == 'p' || c == 'P' then do
      let (chars, stop) ← readProperty start (c == 'P') after
      let source := cur.rest.take (stop.pos - start)
      return (.leaf (.charClass source ⟨false, true, false⟩ chars) start stop.pos, stop)
    else if let some width := hexWidth? c then do
      let (code, stop) ← readHex start c width after
      return (.leaf (modes.literal code) start after.pos, stop)
    else if c == '0' then do
      let (code, stop) ← readOctal start c after
      return (.leaf (modes.literal code) start after.pos, stop)
    else if isDigitChar c then readNumbered modes start c after
    else if c == 'k' then readNamed start after
    else if c == 'g' then readGeneral start groups after
    else if c == 'Q' then .ok (readQuoted modes after)
    else if isAlphanumeric c || c == '_' then .fail (.unknownEscape c) start
    else .ok (.leaf (modes.literal c.toNat) start after.pos, after)

end Escape

end RegexInsight
