import RegexInsight.CharSet.Named
import RegexInsight.Text.Numeral

/-! # Faults

    Why a text is not a pattern.  Each fault states its cause; the wording
    of the message and of the suggestion is decided here alone.  A fault
    with its position and the pattern is a parse error. -/

namespace RegexInsight

/-- What is wrong with a pattern. -/
inductive Fault where
  /-- A `)` without its `(`. -/
  | unbalancedParenthesis
  /-- A `(` without its `)`. -/
  | unclosedGroup
  | tooManyConditionalBranches
  /-- The pattern ends after `(?`. -/
  | endOfGroupHead
  | unclosedComment
  | unknownExtension (c : Char)
  | duplicateName (name : Text)
  | unclosedName (terminator : Char)
  | badName (name : Text)
  | badRecursion
  | badCondition
  | unknownFlag (group : Text)
  | reversedBounds (low high : Nat)
  | multipleRepeat
  | nothingToRepeat
  | trailingBackslash
  | unknownEscape (c : Char)
  | incompleteNameReference
  | unclosedReference (terminator : Char)
  | unclosedBracedReference
  | incompleteReference
  | referenceBeforeFirst (target : Text)
  | badReference (target : Text)
  | incompleteHex (letter : Char)
  | hexOutOfRange (letter : Char) (digits : Text)
  | octalOutOfRange (digits : Text)
  | unclosedProperty
  | incompleteProperty
  | emptyProperty
  | unclosedClass
  | unknownPosixClass (name : Text)
  | openRange
  | reversedRange (low high : CodePoint)
  | unknownClassEscape (c : Char)
  /-- A number that is not the number of a group. -/
  | invalidReference (number groups : Nat)
  | unknownName (name : Text)
  deriving DecidableEq, Repr

namespace Fault

/-- The inline flag letters, in the order in which they are listed. -/
def flagLetters : List Char := ['L', 'U', 'a', 'i', 'm', 'n', 's', 'u', 'x']

/-- A text between two fixed pieces. -/
def around (before : String) (text : Text) (after : String) : List CodePoint :=
  pointsOf (before.toList ++ text ++ after.toList)

/-- What went wrong. -/
def message : Fault → List CodePoint
  | unbalancedParenthesis => around "unbalanced parenthesis" [] ""
  | unclosedGroup => around "missing ), unterminated subpattern" [] ""
  | tooManyConditionalBranches => around "conditional group with more than two branches" [] ""
  | endOfGroupHead => around "unexpected end of pattern after '(?'" [] ""
  | unclosedComment => around "missing ), unterminated comment" [] ""
  | unknownExtension c => around "unknown extension ?" [c] ""
  | duplicateName name => around "redefinition of group name '" name "'"
  | unclosedName terminator => around "missing " [terminator] ", unterminated name"
  | badName name => around "bad character in group name '" name "'"
  | badRecursion => around "invalid recursion syntax" [] ""
  | badCondition => around "unsupported condition in conditional group" [] ""
  | unknownFlag group => around "unknown flag in '" group "'"
  | reversedBounds low high =>
    around "invalid quantifier bounds \x7b" (toString low ++ "," ++ toString high).toList
      "\x7d: min is greater than max"
  | multipleRepeat => around "multiple repeat" [] ""
  | nothingToRepeat => around "nothing to repeat" [] ""
  | trailingBackslash => around "trailing backslash" [] ""
  | unknownEscape c => around "unknown escape \\" [c] ""
  | incompleteNameReference => around "incomplete \\k escape" [] ""
  | unclosedReference _ => around "missing terminator in \\g" [] ""
  | unclosedBracedReference => around "missing \x7d in \\g\x7b...\x7d" [] ""
  | incompleteReference => around "incomplete \\g escape" [] ""
  | referenceBeforeFirst target =>
    around "relative reference " target " points before the first group"
  | badReference target => around "bad group reference '" target "'"
  | incompleteHex letter => around "incomplete escape \\" [letter] ""
  | hexOutOfRange letter digits => around "code point out of range \\" (letter :: digits) ""
  | octalOutOfRange digits =>
    around "octal escape value \\" digits " outside of range 0-0o377"
  | unclosedProperty => around "missing \x7d in Unicode property escape" [] ""
  | incompleteProperty => around "incomplete Unicode property escape" [] ""
  | emptyProperty => around "empty Unicode property name" [] ""
  | unclosedClass => around "unterminated character set" [] ""
  | unknownPosixClass name => around "unknown POSIX class [:" name ":]"
  | openRange => around "bad character range" [] ""
  | reversedRange low high =>
    around "bad character range " [] "" ++ [low] ++ around "-" [] "" ++ [high]
  | unknownClassEscape c => around "unknown escape \\" [c] " in character class"
  | invalidReference number _ =>
    around "invalid group reference " (toString number).toList ""
  | unknownName name => around "unknown group name '" name "'"

/-- How the pattern can be mended. -/
def suggestion : Fault → List CodePoint
  | unbalancedParenthesis => around "remove the extra ')' or add a matching '('" [] ""
  | unclosedGroup => around "add a closing ')' to complete the group" [] ""
  | tooManyConditionalBranches => around "use at most one '|' inside (?(...)...)" [] ""
  | endOfGroupHead => around "complete or remove the group" [] ""
  | unclosedComment => around "close the comment with ')'" [] ""
  | unknownExtension _ => around "use (?:...) for a plain group or escape the '(' as '\\('" [] ""
  | duplicateName _ => around "give each named group a unique name" [] ""
  | unclosedName terminator => around "close the group name with '" [terminator] "'"
  | badName _ =>
    around "group names must start with a letter or '_' and contain only word characters" [] ""
  | badRecursion => around "use (?R), (?1), (?-1) or (?&name)" [] ""
  | badCondition => around "condition must be a group number or name, e.g. (?(1)a|b)" [] ""
  | unknownFlag _ => around "inline flags are limited to " flagLetters ""
  | reversedBounds low high =>
    around "swap the bounds: \x7b" (toString high ++ "," ++ toString low).toList "\x7d"
  | multipleRepeat =>
    around "remove one quantifier or wrap the quantified expression in (?:...)" [] ""
  | nothingToRepeat =>
    around "add a character or group before the quantifier, or escape it" [] ""
  | trailingBackslash => around "escape it as '\\\\'" [] ""
  | unknownEscape c =>
    around "remove the backslash or write '\\\\" [c] "' for a literal backslash"
  | incompleteNameReference => around "use \\k<name>" [] ""
  | unclosedReference terminator => around "close with '" [terminator] "'"
  | unclosedBracedReference => around "close with '\x7d'" [] ""
  | incompleteReference => around "use \\g\x7b1\x7d or \\g<name>" [] ""
  | referenceBeforeFirst _ => around "use an absolute group number" [] ""
  | badReference _ => around "use a group number or name" [] ""
  | incompleteHex _ =>
    around "use the full hex form, e.g. \\x41, \\x\x7b263A\x7d or \\u00e9" [] ""
  | hexOutOfRange _ _ => around "use a value up to 10FFFF" [] ""
  | octalOutOfRange _ => around "use \\x for larger values" [] ""
  | unclosedProperty => around "use \\p\x7bName\x7d" [] ""
  | incompleteProperty => around "use \\p\x7bL\x7d or \\pL" [] ""
  | emptyProperty => around "name a property, e.g. \\p\x7bL\x7d" [] ""
  | unclosedClass => around "add a closing ']'" [] ""
  | unknownPosixClass _ =>
    around "use one of " (", ".intercalate (posixClasses.map Prod.fst)).toList ""
  | openRange => around "ranges need a single character at each end" [] ""
  | reversedRange low high =>
    around "put the lower bound first: " [] "" ++ [high] ++ around "-" [] "" ++ [low]
  | unknownClassEscape c => around "remove the backslash or write '\\\\" [c] "'"
  | invalidReference _ groups =>
    around "the pattern defines " (toString groups).toList " group(s)"
  | unknownName _ => around "define the named group before referencing it" [] ""

end Fault

/-- A fault at a position of a pattern. -/
structure ParseError where
  fault : Fault
  position : Nat
  pattern : Text
  deriving DecidableEq, Repr

namespace ParseError

def message (e : ParseError) : List CodePoint := e.fault.message

def suggestion (e : ParseError) : List CodePoint := e.fault.suggestion

/-- The error on one line: message, position and suggestion. -/
def summary (e : ParseError) : List CodePoint :=
  e.message ++ pointsOf (" at position " ++ toString e.position ++ " (").toList ++
    e.suggestion ++ pointsOf [')']

end ParseError

/-- Why reading a pattern stops. -/
inductive ParseFailure where
  | malformed (error : ParseError)
  /-- A number in the pattern cannot be read. -/
  | numeral (error : NumeralError)
  deriving DecidableEq, Repr

end RegexInsight
