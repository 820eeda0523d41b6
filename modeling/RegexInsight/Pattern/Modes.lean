import RegexInsight.Pattern.Cursor

/-! # Modes

    The inline flags that change how the text after them is read: `i`
    ignores case, `s` lets the dot match a newline, and `x` skips
    whitespace and comments.  The other letters are accepted and have no
    effect on reading. -/

namespace RegexInsight

/-- The flags in force. -/
structure Modes where
  ignoreCase : Bool
  dotAll : Bool
  verbose : Bool
  deriving DecidableEq, Repr

namespace Modes

/-- No flag is set. -/
def none : Modes := ⟨false, false, false⟩

/-- A flag after letters were switched on and others then off. -/
def switched (before : Bool) (letter : Char) (on off : Text) : Bool :=
  (before || on.contains letter) && !off.contains letter

/-- The modes after the letters of a flag text such as `i-s`: those before
    the first dash are added, those after it removed. -/
def apply (m : Modes) (text : Text) : Modes :=
  let on := text.takeWhile (· != '-')
  let off := text.drop (on.length + 1)
  { ignoreCase := switched m.ignoreCase 'i' on off
    dotAll := switched m.dotAll 's' on off
    verbose := switched m.verbose 'x' on off }

/-- The characters that a literal accepts. -/
def accepts (m : Modes) (chars : CharSet) : CharSet :=
  if m.ignoreCase then chars.withOtherCase else chars

/-- The label of a literal character. -/
def literal (m : Modes) (c : CodePoint) : Label :=
  .literal c (m.accepts (.single c))

/-- The label of a dot. -/
def dot (m : Modes) : Label :=
  .any (if m.dotAll then .everything else .anyButNewline)

end Modes

end RegexInsight
