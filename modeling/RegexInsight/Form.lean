import RegexInsight.Pattern.Label
import RegexInsight.Text.Literal
import RegexInsight.Unicode.Decimal
import RegexInsight.Unicode.Space

/-! # Forms

    The small pattern language in which values are described: characters,
    classes, sequences, choices and counted repetition.  A form is written
    as a pattern text and tells by itself which texts it accepts as a
    whole.

    In forms a digit is a decimal digit of any script and a space is any
    whitespace. -/

namespace RegexInsight

/-! ## Section 1: Classes -/

/-- The classes with a letter of their own. -/
inductive FormShorthand where
  | digit | space | notSpace
  deriving DecidableEq, Repr

namespace FormShorthand

/-- The written form of a shorthand. -/
def text : FormShorthand → Text
  | digit => ['\\', 'd']
  | space => ['\\', 's']
  | notSpace => ['\\', 'S']

/-- Whether a shorthand accepts a character. -/
def accepts (c : Char) : FormShorthand → Bool
  | digit => isDecimal c
  | space => isSpace c
  | notSpace => !isSpace c

end FormShorthand

/-- A member of a bracket class. -/
inductive BracketItem where
  | char (c : Char)
  | range (lo hi : Char)
  | shorthand (s : FormShorthand)
  deriving DecidableEq, Repr

namespace BracketItem

/-- Whether a member accepts a character. -/
def accepts (c : Char) : BracketItem → Bool
  | char d => c == d
  | range lo hi => lo ≤ c && c ≤ hi
  | shorthand s => s.accepts c

/-- The written form of a member; a dash is escaped unless it comes last. -/
def text (isLast : Bool) : BracketItem → Text
  | char c => if c == '-' && !isLast then ['\\', '-'] else [c]
  | range lo hi => [lo, '-', hi]
  | shorthand s => s.text

/-- The written forms of the members of a class. -/
def texts : List BracketItem → Text
  | [] => []
  | item :: rest => item.text rest.isEmpty ++ texts rest

end BracketItem

/-- What a form accepts as one character. -/
inductive FormClass where
  | char (c : Char)
  | shorthand (s : FormShorthand)
  | bracket (items : List BracketItem)
  deriving DecidableEq, Repr

namespace FormClass

/-- The written form of a class. -/
def text : FormClass → Text
  | char c => Literal.escapeChar c
  | shorthand s => s.text
  | bracket items => ['['] ++ BracketItem.texts items ++ [']']

/-- Whether a class accepts a character. -/
def accepts (c : Char) : FormClass → Bool
  | char d => c == d
  | shorthand s => s.accepts c
  | bracket items => items.any (·.accepts c)

/-- A decimal digit. -/
def digit : FormClass := shorthand .digit

/-- A lower-case ASCII letter. -/
def lower : FormClass := bracket [.range 'a' 'z']

/-- An upper-case ASCII letter. -/
def upper : FormClass := bracket [.range 'A' 'Z']

/-- An ASCII letter. -/
def letter : FormClass := bracket [.range 'a' 'z', .range 'A' 'Z']

/-- Any character. -/
def anything : FormClass := bracket [.shorthand .space, .shorthand .notSpace]

end FormClass

/-! ## Section 2: Forms -/

/-- A description of texts. -/
inductive Form where
  /-- The empty text. -/
  | empty
  /-- One character of a class. -/
  | one (accepted : FormClass)
  /-- One form after another. -/
  | seq (first second : Form)
  /-- One of two forms. -/
  | alt (left right : Form)
  /-- A form repeated within bounds. -/
  | rep (body : Form) (bounds : Bounds)
  deriving DecidableEq, Repr

namespace Form

/-- Some forms one after the other. -/
def sequence (forms : List Form) : Form :=
  forms.foldr seq empty

/-- A literal text. -/
def literal (text : Text) : Form :=
  sequence (text.map fun c => one (.char c))

/-- A form repeated exactly `n` times. -/
def exactly (n : Nat) (form : Form) : Form :=
  rep form ⟨n, some n⟩

/-- A form repeated from `low` to `high` times. -/
def between (low high : Nat) (form : Form) : Form :=
  rep form ⟨low, some high⟩

/-- A form repeated `n` times or more. -/
def atLeast (n : Nat) (form : Form) : Form :=
  rep form ⟨n, none⟩

/-- A form or nothing. -/
def maybe (form : Form) : Form :=
  rep form ⟨0, some 1⟩

/-! ## Section 3: Writing -/

/-- The written form of repetition bounds. -/
def boundsText (b : Bounds) : Text :=
  match b.min, b.max with
  | 0, some 1 => ['?']
  | 0, none => ['*']
  | 1, none => ['+']
  | low, none => ['{'] ++ (toString low).toList ++ [',', '}']
  | low, some high =>
    if low = high then ['{'] ++ (toString low).toList ++ ['}']
    else ['{'] ++ (toString low).toList ++ [','] ++ (toString high).toList ++ ['}']

/-- A text in a group that does not capture. -/
def grouped (text : Text) : Text :=
  ['(', '?', ':'] ++ text ++ [')']

/-- The pattern text of a form. -/
def text : Form → Text
  | empty => []
  | one accepted => accepted.text
  | seq first second => first.text ++ second.text
  | alt left right => grouped (left.text ++ ['|'] ++ right.text)
  | rep body bounds =>
    match body with
    | one accepted => accepted.text ++ boundsText bounds
    | alt left right => grouped (left.text ++ ['|'] ++ right.text) ++ boundsText bounds
    | other => grouped other.text ++ boundsText bounds

/-! ## Section 4: Acceptance -/

/-- Whether a form accepts the empty text. -/
def nullable : Form → Bool
  | empty => true
  | one _ => false
  | seq first second => first.nullable && second.nullable
  | alt left right => left.nullable || right.nullable
  | rep body bounds => bounds.min == 0 || body.nullable

/-- Two forms in sequence, where the empty form disappears. -/
def followedBy (first second : Form) : Form :=
  match first with
  | empty => second
  | other => seq other second

/-- The bounds after one repetition. -/
def fewer (b : Bounds) : Bounds :=
  ⟨b.min - 1, b.max.map (· - 1)⟩

/-- What may remain of a form after a character: the form accepts `c :: w`
    exactly when one of the remainders accepts `w`. -/
def remainders (c : Char) : Form → List Form
  | empty => []
  | one accepted => if accepted.accepts c then [empty] else []
  | seq first second =>
    let inFirst := (remainders c first).map fun rest => followedBy rest second
    if first.nullable then inFirst ++ remainders c second else inFirst
  | alt left right => remainders c left ++ remainders c right
  | rep body bounds =>
    if bounds.max = some 0 then []
    else (remainders c body).map fun rest => followedBy rest (rep body (fewer bounds))

/-- What may remain of some forms after a text, without repetition. -/
def remaindersAfter (forms : List Form) (text : Text) : List Form :=
  text.foldl (fun forms c => (forms.flatMap (remainders c)).eraseDups) forms

/-- Whether a form accepts a whole text. -/
def accepts (form : Form) (text : Text) : Bool :=
  (remaindersAfter [form] text).any nullable

end Form

end RegexInsight
