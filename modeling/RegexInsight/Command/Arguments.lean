import RegexInsight.Text.Number

/-! # Arguments

    Command-line arguments split into options and positional arguments.
    An option has a long name, given with two dashes, and perhaps a letter,
    given with one.  Its value follows as the next argument, after an
    equals sign, or right after the letter; letters of options without a
    value can be joined.  Everything after two dashes is positional. -/

namespace RegexInsight

/-- An option that a command knows. -/
structure OptionSpec where
  name : String
  letter : Option Char
  takesValue : Bool
  deriving DecidableEq, Repr

/-- Arguments taken apart; an option without a value has an empty one. -/
structure Arguments where
  options : List (String × Text)
  positionals : List Text
  deriving DecidableEq, Repr

namespace Arguments

/-! ## Section 1: Reading -/

/-- The option of a long name. -/
def findLong (specs : List OptionSpec) (name : Text) : Option OptionSpec :=
  specs.find? fun spec => spec.name.toList == name

/-- The option of a letter. -/
def findLetter (specs : List OptionSpec) (letter : Char) : Option OptionSpec :=
  specs.find? fun spec => spec.letter == some letter

/-- What one argument gives: complete options, and the name of an option that
    still needs its value. -/
structure Given where
  complete : List (String × Text)
  pending : Option String

/-- Reads the letters after a single dash. -/
def readLetters (specs : List OptionSpec) : Text → Option Given
  | [] => some ⟨[], none⟩
  | c :: rest => do
    let spec ← findLetter specs c
    if spec.takesValue then
      if rest.isEmpty then return ⟨[], some spec.name⟩
      else return ⟨[(spec.name, rest)], none⟩
    else
      let given ← readLetters specs rest
      return { given with complete := (spec.name, []) :: given.complete }

/-- Reads what follows two dashes. -/
def readLong (specs : List OptionSpec) (text : Text) : Option Given := do
  let name := text.takeWhile (· != '=')
  let value := text.drop (name.length + 1)
  let hasValue : Bool := name.length < text.length
  let spec ← findLong specs name
  match spec.takesValue, hasValue with
  | true, true => some ⟨[(spec.name, value)], none⟩
  | true, false => some ⟨[], some spec.name⟩
  | false, false => some ⟨[(spec.name, [])], none⟩
  | false, true => none

/-- Reads one argument that begins with a dash. -/
def readOption (specs : List OptionSpec) : Text → Option Given
  | '-' :: '-' :: text => readLong specs text
  | _ :: letters => readLetters specs letters
  | [] => none

/-- Whether an argument is an option; a lone dash is none. -/
def isOption (arg : Text) : Bool :=
  arg.head? == some '-' && 1 < arg.length

/-- Options before the arguments that follow. -/
def withOptions (options : List (String × Text)) (later : Arguments) : Arguments :=
  { later with options := options ++ later.options }

/-- A positional argument before those that follow. -/
def withPositional (arg : Text) (later : Arguments) : Arguments :=
  { later with positionals := arg :: later.positionals }

/-- Takes arguments apart; none when an option is unknown, lacks its value or
    has one that it does not take. -/
def read (specs : List OptionSpec) : List Text → Option Arguments
  | [] => some ⟨[], []⟩
  | arg :: rest =>
    if arg = ['-', '-'] then some ⟨[], rest⟩
    else if !isOption arg then (read specs rest).map (withPositional arg)
    else
      match readOption specs arg with
      | none => none
      | some ⟨complete, none⟩ => (read specs rest).map (withOptions complete)
      | some ⟨complete, some name⟩ =>
        match rest with
        | [] => none
        | value :: rest => (read specs rest).map (withOptions (complete ++ [(name, value)]))

/-! ## Section 2: Looking up -/

/-- Whether an option was given. -/
def has (a : Arguments) (name : String) : Bool :=
  a.options.any fun entry => entry.1 == name

/-- All values of an option. -/
def values (a : Arguments) (name : String) : List Text :=
  (a.options.filter fun entry => entry.1 == name).map Prod.snd

/-- The value of an option; of several the last one counts. -/
def value? (a : Arguments) (name : String) : Option Text :=
  (a.values name).getLast?

/-- The value of an option read as a number; none when it cannot be read. -/
def number? {α : Type} (a : Arguments) (name : String) (read : Text → Option α) :
    Option (Option α) :=
  match a.value? name with
  | none => some none
  | some text => (read text).map some

/-- The only positional argument. -/
def only? (a : Arguments) : Option Text :=
  match a.positionals with
  | [arg] => some arg
  | _ => none

end Arguments

end RegexInsight
