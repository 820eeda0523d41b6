import Mathlib
import RegexInsight.Proofs.Pattern.Tree

/-! # Languages

    The words that a node matches when its surroundings are left out of
    account: a leaf with a character set matches one character of it, an
    assertion the empty word, and a reference any word.  Inner nodes
    combine the languages of their children by the usual operations. -/

namespace RegexInsight

/-- A word: the code points that a match consumes. -/
abbrev Word := List CodePoint

/-! ## Section 1: Languages of labels -/

/-- One character of a set. -/
def CharSet.language (a : CharSet) : Language CodePoint :=
  {w | ∃ c, a.contains c = true ∧ w = [c]}

/-- Every word. -/
def anyWord : Language CodePoint :=
  {w | ∀ c ∈ w, c ≤ maxCodePoint}

/-- As many words of a language, one after the other, as the bounds allow. -/
def Bounds.language (bounds : Bounds) (body : Language CodePoint) : Language CodePoint :=
  {w | ∃ n, bounds.min ≤ n ∧ (∀ high, bounds.max = some high → n ≤ high) ∧ w ∈ body ^ n}

/-- The language of the only child. -/
def languageOfOnly : List (Language CodePoint) → Language CodePoint
  | [body] => body
  | _ => 1

/-- The language of a node from its label and the languages of its
    children. -/
def Label.language (label : Label) (children : List (Language CodePoint)) : Language CodePoint :=
  match label with
  | .literal _ accepts => accepts.language
  | .charClass _ _ accepts => accepts.language
  | .any accepts => accepts.language
  | .empty | .anchor _ | .flags _ | .lookaround _ _ => 1
  | .backreference _ | .recursion _ => anyWord
  | .group _ => languageOfOnly children
  | .quantifier bounds _ => bounds.language (languageOfOnly children)
  | .concat => children.prod
  | .alternation => children.sum
  | .conditional _ => if children.length = 1 then children.sum + 1 else children.sum

namespace Node

mutual

/-- The words that a node matches. -/
def language : Node → Language CodePoint
  | node label _ children => label.language (languages children)

/-- The languages of some nodes. -/
def languages : List Node → List (Language CodePoint)
  | [] => []
  | n :: rest => n.language :: languages rest

end

theorem languages_eq_map (nodes : List Node) : languages nodes = nodes.map language := by
  induction nodes with
  | nil => rfl
  | cons n rest ih => rw [languages, ih, List.map_cons]

theorem language_eq (n : Node) : n.language = n.label.language (n.children.map language) := by
  obtain ⟨label, mark, children⟩ := n
  rw [language, languages_eq_map]
  rfl

end Node

/-! ## Section 2: Words -/

/-- A word of a union is a word of one of the languages. -/
theorem mem_sum {languages : List (Language CodePoint)} {w : Word} :
    w ∈ languages.sum ↔ ∃ l ∈ languages, w ∈ l := by
  induction languages with
  | nil => simp [Language.notMem_zero]
  | cons l rest ih => rw [List.sum_cons, Language.mem_add, ih, List.exists_mem_cons_iff]

end RegexInsight
