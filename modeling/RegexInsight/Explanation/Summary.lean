import RegexInsight.Explanation
import RegexInsight.Form.Template

/-! # Summary

    A pattern in one sentence: the name of a known format that it spells,
    else its parts read one after the other. -/

namespace RegexInsight

/-- A pattern in words. -/
structure Explanation where
  pattern : Text
  parts : List Part
  summary : String

/-! ## Section 1: Fragments -/

/-- A word for a part of a group's body. -/
def wordFor? (part : Part) : Option String :=
  match part.kind with
  | .shorthandClass => some (((shorthandNouns? part.token).map Prod.snd).getD "characters")
  | .literal => some "literal"
  | .anyChar => some "any char"
  | .characterClass => some "char class"
  | _ => none

/-- The body of a group or branch in a few words. -/
def bodySummary (body : List Part) : String :=
  let words := body.filterMap wordFor?
  if words.isEmpty then "group" else " + ".intercalate words

/-- A quantifier without the marks of its mode; a quantifier made of such
    marks only is its first character. -/
def quantifierBase (quantifier : Text) : Text :=
  let base := (quantifier.reverse.dropWhile fun c => c == '?' || c == '+').reverse
  if base.isEmpty then quantifier.take 1 else base

/-- A shorthand class in a sentence. -/
def shorthandFragment (part : Part) : String :=
  let (singular, plural) := (shorthandNouns? part.token).getD ("character", "characters")
  let quantifier := part.quantifier.getD []
  match quantifierBase quantifier with
  | ['+'] => "one or more " ++ plural
  | ['*'] => "zero or more " ++ plural
  | ['?'] => "an optional " ++ singular
  | _ =>
    if quantifier.isEmpty then withArticle singular
    else plural ++ " (" ++ String.ofList quantifier ++ ")"

/-- An alternation in a sentence: up to three branches are named. -/
def alternationFragment (branches : List Part) : String :=
  if branches.length ≤ 3 then
    "either " ++ " or ".intercalate (branches.map fun b =>
      if b.children.isEmpty then String.ofList b.token else bodySummary b.children)
  else "one of " ++ toString branches.length ++ " alternatives"

/-- The dot in a sentence. -/
def anyCharFragment (quantifier : Option Text) : String :=
  match (quantifier.getD []).head? with
  | some '*' => "any text"
  | some '+' => "some text"
  | _ => "any character"

/-- A text between single quotes. -/
def quotedToken (token : Text) : String :=
  "'" ++ String.ofList token ++ "'"

/-- What a part says in the sentence. -/
def fragment? (part : Part) : Option String :=
  match part.kind with
  | .capturingGroup | .namedGroup => some ("a captured " ++ bodySummary part.children)
  | .alternation => some (alternationFragment part.children)
  | .shorthandClass => some (shorthandFragment part)
  | .literal => some (quotedToken part.token)
  | .anyChar => some (anyCharFragment part.quantifier)
  | .characterClass => some ("characters matching " ++ String.ofList part.token)
  | .repetition => some (String.ofList (lowercase part.description.toList))
  | _ => none

/-- A run of literals as one fragment. -/
def literalFragment (tokens : List Text) : List String :=
  if tokens.isEmpty then [] else [quotedToken tokens.flatten]

/-- The fragments of some parts; neighbouring literals without quantifiers
    are joined, with `run` those already passed. -/
def fragments (run : List Text) : List Part → List String
  | [] => literalFragment run
  | part :: rest =>
    if part.kind = .literal && part.quantifier.isNone then
      fragments (run ++ [part.token]) rest
    else literalFragment run ++ (fragment? part).toList ++ fragments [] rest

/-! ## Section 2: Anchoring -/

/-- The written forms of anchors at the start of a text. -/
def startTokens : List Text := [Anchor.text .lineStart, Anchor.text .textStart]

/-- The written forms of anchors at the end of a text. -/
def endTokens : List Text :=
  [Anchor.text .lineEnd, Anchor.text .absoluteEnd, Anchor.text .textEnd]

/-- Some part is an anchor with one of the written forms. -/
def hasAnchor (tokens : List Text) (parts : List Part) : Bool :=
  parts.any fun part => part.kind = .anchor && tokens.contains part.token

/-- How the anchors among some parts tie a match down. -/
def anchoring (parts : List Part) : String :=
  match hasAnchor startTokens parts, hasAnchor endTokens parts with
  | true, true => " (full line match)"
  | true, false => " (at start of line)"
  | false, true => " (at end of line)"
  | false, false => ""

/-! ## Section 3: The sentence -/

/-- The parts of a pattern read one after the other. -/
def structuralSummary (parts : List Part) : String :=
  let said := fragments [] parts
  if said.isEmpty then "Matches the specified pattern"
  else "Matches " ++ ", then ".intercalate said ++ anchoring parts

/-- A pattern with some parts in one sentence. -/
def summarize (pattern : Text) (parts : List Part) : String :=
  if parts.isEmpty then "Empty pattern"
  else
    match Template.recognize? pattern with
    | some template => "Matches " ++ withArticle template.description
    | none => structuralSummary parts

/-- A pattern in words. -/
def Pattern.explain (p : Pattern) : Explanation :=
  let parts := p.parts
  ⟨p.text, parts, summarize p.text parts⟩

/-- All parts in pattern order, with depths. -/
def Explanation.walk (e : Explanation) : List (Nat × Part) :=
  Part.walkEach 0 e.parts

end RegexInsight
