import RegexInsight.Dialect.Registry

/-! # Built-in Dialects

    The capability records of the dialects that are known from the
    start. -/

namespace RegexInsight

namespace Dialect

/-- What no automaton-based engine supports. -/
def automatonUnsupported : List FeatureFlag :=
  [.lookahead, .lookbehind, .lookbehindVariableLength, .backreference,
   .backreferenceInLookaround, .atomicGroup, .possessiveQuantifier, .conditional,
   .recursion]

/-- Notes of the automaton-based engines. -/
def automatonNotes : List (FeatureFlag × String) :=
  [(.lookahead, "Lookahead assertions are not supported by automaton-based engines"),
   (.lookbehind, "Lookbehind assertions are not supported by automaton-based engines"),
   (.backreference, "Backreferences cannot be matched in linear time")]

/-- The record of an automaton-based engine. -/
def automaton (id name : String) (aliases : List String) : Dialect where
  id := id
  name := name
  unsupported := automatonUnsupported
  spellings := [.pAngle, .angle]
  aliases := aliases
  notes := automatonNotes

def rustRegex : Dialect := automaton "rust_regex" "Rust regex crate" ["rust"]

def goRegexp : Dialect := automaton "go_regexp" "Go regexp" ["go", "golang"]

def re2 : Dialect := automaton "re2" "RE2" ["google_re2"]

def pcre2 : Dialect where
  id := "pcre2"
  name := "PCRE2"
  unsupported := [.lookbehindVariableLength]
  spellings := NameSpelling.all
  aliases := ["pcre", "php", "perl"]
  notes := [(.lookbehindVariableLength, "PCRE2 lookbehind must have a bounded length")]

def javascript : Dialect where
  id := "javascript"
  name := "JavaScript RegExp"
  unsupported :=
    [.atomicGroup, .possessiveQuantifier, .conditional, .recursion, .posixClass, .inlineFlags]
  spellings := [.angle]
  aliases := ["js", "ecmascript", "typescript", "ts", "node"]
  notes := [(.inlineFlags, "JavaScript takes flags on the RegExp object, not inline")]

def pythonRe : Dialect where
  id := "python_re"
  name := "Python re"
  unsupported := [.lookbehindVariableLength, .unicodeProperty, .recursion, .posixClass]
  spellings := [.pAngle]
  aliases := ["python", "py", "re"]
  notes :=
    [(.lookbehindVariableLength, "re requires fixed-width lookbehind"),
     (.unicodeProperty, "re has no \\p\x7b...\x7d; use the regex module")]

def pythonRegex : Dialect where
  id := "python_regex"
  name := "Python regex module"
  unsupported := []
  spellings := NameSpelling.all
  aliases := ["regex"]
  notes := []

def java : Dialect where
  id := "java"
  name := "Java java.util.regex"
  unsupported := [.lookbehindVariableLength, .conditional, .recursion, .posixClass]
  spellings := [.angle]
  aliases := ["kotlin", "scala"]
  notes := [(.posixClass, "Java spells POSIX classes as \\p\x7bAlpha\x7d")]

def dotnet : Dialect where
  id := "dotnet"
  name := ".NET System.Text.RegularExpressions"
  unsupported := [.possessiveQuantifier, .recursion, .posixClass]
  spellings := [.angle, .quote]
  aliases := ["net", ".net", "csharp", "c#", "cs"]
  notes := []

def ruby : Dialect where
  id := "ruby"
  name := "Ruby (Onigmo)"
  unsupported := [.lookbehindVariableLength, .conditional, .recursion]
  spellings := [.angle, .quote]
  aliases := ["rb", "onigmo", "oniguruma"]
  notes := [(.recursion, "Onigmo supports \\g<name> subroutines but not (?R)")]

/-- The built-in dialects in order of registration. -/
def builtin : List Dialect :=
  [rustRegex, goRegexp, re2, pcre2, javascript, pythonRe, pythonRegex, java, dotnet, ruby]

end Dialect

/-- The registry of the built-in dialects. -/
def Registry.builtin : Registry :=
  Dialect.builtin.foldl register empty

end RegexInsight
