import RegexInsight.Pattern.Label
import RegexInsight.Text.Quoted
import RegexInsight.Unicode.Lowercase
import RegexInsight.Unicode.Printable

/-! # Wording

    The words for the elements of a pattern. -/

namespace RegexInsight

/-! ## Section 1: Flags -/

/-- What a flag letter switches on. -/
def flagWords : Char → String
  | 'a' => "ASCII-only matching"
  | 'i' => "case-insensitive"
  | 'L' => "locale-dependent matching"
  | 'm' => "multi-line mode"
  | 's' => "dot matches newline"
  | 'u' => "unicode mode"
  | 'x' => "ignore whitespace"
  | 'n' => "explicit capture"
  | 'U' => "swap greedy/non-greedy"
  | other => String.singleton other

/-- Flag letters in words. -/
def flagList (letters : Text) : String :=
  ", ".intercalate (letters.map flagWords)

/-- Inline flags in words: the letters before the first dash are switched on,
    those after it off. -/
def describeFlags (text : Text) : String :=
  let on := text.takeWhile (· != '-')
  let off := text.drop (on.length + 1)
  match on.isEmpty, off.isEmpty with
  | true, true => "No flag changes"
  | false, true => "Enable " ++ flagList on
  | true, false => "Disable " ++ flagList off
  | false, false => "Enable " ++ flagList on ++ "; disable " ++ flagList off

/-! ## Section 2: Quantifiers -/

/-- Bounds in words. -/
def describeBounds (b : Bounds) : String :=
  match b.min, b.max with
  | 0, some 1 => "Zero or one"
  | 0, none => "Zero or more"
  | 1, none => "One or more"
  | low, none => toString low ++ " or more"
  | low, some high =>
    if low = high then "Exactly " ++ toString low
    else "Between " ++ toString low ++ " and " ++ toString high

/-- A quantifier in words. -/
def describeQuantifier (bounds : Bounds) (mode : QuantifierMode) : String :=
  describeBounds bounds ++ match mode with
    | .greedy => ""
    | .lazy => " (lazy)"
    | .possessive => " (possessive)"

/-- A text whose first letter is in lower case. -/
def uncapitalized (text : String) : String :=
  match text.toList with
  | [] => ""
  | c :: rest => String.ofList (lowercaseChar c ++ rest)

/-! ## Section 3: Characters -/

/-- An anchor in words. -/
def describeAnchor : Anchor → String
  | .lineStart => "Start of line/string"
  | .lineEnd => "End of line/string"
  | .textStart => "Start of text (absolute)"
  | .textEnd => "End of text"
  | .absoluteEnd => "End of text (absolute)"
  | .wordBoundary => "Word boundary"
  | .notWordBoundary => "Non-word boundary"
  | .previousMatchEnd => "Position where the previous match ended"

/-- Whether a code point is an ASCII letter or digit. -/
def isAsciiAlphanumeric (c : CodePoint) : Bool :=
  (Char.ofNat c).isAlphanum

/-- A literal in words: a character that is no ASCII letter or digit also by
    its code, and by its written form if it is not printable. -/
def describeLiteral (c : CodePoint) (token : Text) : String :=
  let code := String.ofList ((hexText 4 c).map Char.toUpper)
  if isAsciiAlphanumeric c then "Literal '" ++ String.singleton (Char.ofNat c) ++ "'"
  else
    let shown := if isPrintable c then [Char.ofNat c] else token
    "Literal '" ++ String.ofList shown ++ "' (U+" ++ code ++ ")"

/-- A shorthand class in words. -/
def describeShorthand (source : Text) : String :=
  match source with
  | ['\\', 'd'] => "Digit character [0-9]"
  | ['\\', 'D'] => "Non-digit character"
  | ['\\', 'w'] => "Word character [a-zA-Z0-9_]"
  | ['\\', 'W'] => "Non-word character"
  | ['\\', 's'] => "Whitespace character"
  | ['\\', 'S'] => "Non-whitespace character"
  | other => "Character class " ++ String.ofList other

/-- The name in a property escape. -/
def propertyName (source : Text) : Text :=
  match source.drop 2 with
  | '{' :: rest => rest.dropLast
  | other => other

/-- A property escape in words. -/
def describeProperty (source : Text) : String :=
  let sense := if source[1]? = some 'P' then "Not in Unicode property" else "Unicode property"
  sense ++ ": " ++ String.ofList (propertyName source)

/-- A bracket class in words. -/
def describeBracket (negated : Bool) : String :=
  "Character class: matches " ++ (if negated then "not " else "")
    ++ "one of the specified characters"

/-! ## Section 4: Nouns -/

/-- The singular and the plural noun for a shorthand class. -/
def shorthandNouns? (token : Text) : Option (String × String) :=
  match token.take 2 with
  | ['\\', 'd'] => some ("digit", "digits")
  | ['\\', 'D'] => some ("non-digit", "non-digits")
  | ['\\', 'w'] => some ("word character", "word characters")
  | ['\\', 'W'] => some ("non-word character", "non-word characters")
  | ['\\', 's'] => some ("whitespace character", "whitespace")
  | ['\\', 'S'] => some ("non-whitespace character", "non-whitespace characters")
  | _ => none

/-- A noun phrase with the article that its first letter asks for. -/
def withArticle (text : String) : String :=
  match text.toList with
  | [] => "an "
  | c :: _ =>
    if ['a', 'e', 'i', 'o', 'u'].contains c.toLower then "an " ++ text else "a " ++ text

end RegexInsight
