import RegexInsight.Pattern.Label

/-! # Runs

    A text splits into runs: maximal stretches of digits, of letters and
    of other characters, while every ASCII punctuation mark is a run of its
    own.  Digits and letters are the ASCII ones.  The shape of a text is
    the sequence of its run keys, which name the kind of a run, and of a
    punctuation mark also the mark. -/

namespace RegexInsight

/-- The kinds of characters told apart in example texts. -/
inductive CharKind where
  | digit | letter | punct | other
  deriving DecidableEq, Repr

namespace CharKind

/-- The kind of a character. -/
def ofChar (c : Char) : CharKind :=
  if '0' ≤ c && c ≤ '9' then digit
  else if ('a' ≤ c && c ≤ 'z') || ('A' ≤ c && c ≤ 'Z') then letter
  else if 0x21 ≤ c.toNat && c.toNat ≤ 0x7E then punct
  else other

/-- The name of a kind in reports. -/
def name : CharKind → String
  | digit => "digit"
  | letter => "letter"
  | punct => "punct"
  | other => "other"

end CharKind

/-- A stretch of characters of one kind. -/
structure Run where
  kind : CharKind
  text : Text
  deriving DecidableEq, Repr

/-- What two texts of one shape share at a position. -/
structure RunKey where
  kind : CharKind
  /-- The mark of a punctuation run, else empty. -/
  mark : Text
  deriving DecidableEq, Repr

namespace Run

/-- The key of a run. -/
def key (r : Run) : RunKey :=
  ⟨r.kind, if r.kind = .punct then r.text else []⟩

/-- Puts a character before the runs of the text after it. -/
def prepend (c : Char) (runs : List Run) : List Run :=
  let kind := CharKind.ofChar c
  match runs with
  | [] => [⟨kind, [c]⟩]
  | r :: rest =>
    if kind = r.kind && kind ≠ .punct then ⟨kind, c :: r.text⟩ :: rest
    else ⟨kind, [c]⟩ :: r :: rest

/-- The runs of a text. -/
def split (text : Text) : List Run :=
  text.foldr prepend []

end Run

/-- The shape of a text. -/
def shapeOf (text : Text) : List RunKey :=
  (Run.split text).map Run.key

end RegexInsight
