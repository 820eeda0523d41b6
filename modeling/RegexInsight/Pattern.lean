import RegexInsight.Pattern.Arena
import RegexInsight.Pattern.Parser

/-! # Patterns

    A pattern is its text together with the tree that was read from it,
    the number of its capturing groups, and the named ones among them. -/

namespace RegexInsight

/-- A parsed pattern. -/
structure Pattern where
  text : Text
  root : Node
  groupCount : Nat
  /-- Named groups in order of definition, with their numbers. -/
  groupNames : List (Text × Nat)
  deriving Repr

namespace Pattern

/-- The failure of a whole parse: a fault gets the pattern as context. -/
def failure (text : Text) : ReadError → ParseFailure
  | .fault fault position => .malformed ⟨fault, position, text⟩
  | .numeral error => .numeral error

/-- Reads a pattern. -/
def read (text : Text) : Read Pattern := do
  let last ← ParserState.run text.length (.initial text)
  let root ← last.finish
  return ⟨text, root, last.groups, last.names⟩

/-- Parses a pattern. -/
def parse (text : Text) : Except ParseFailure Pattern :=
  (read text).mapError (failure text)

/-- The text of a node. -/
def textOf (p : Pattern) (n : Node) : Text := n.textIn p.text

/-- The nodes as a numbered table. -/
def arena (p : Pattern) : Arena := .ofNode p.root

/-- The text of a node given by its number. -/
def textAt? (p : Pattern) (i : Nat) : Option Text :=
  (p.arena.entries[i]?).map fun entry => slice p.text entry.start entry.stop

end Pattern

end RegexInsight
