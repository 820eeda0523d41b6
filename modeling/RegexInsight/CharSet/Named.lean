import RegexInsight.CharSet

/-! # Named Character Sets

    The predefined sets of the pattern language.  Shorthands and POSIX
    classes have ASCII meaning; a Unicode property is approximated from
    above by letters, digits and everything outside ASCII. -/

namespace RegexInsight

namespace CharSet

/-! ## Section 1: Building blocks -/

def digits : CharSet := span '0'.toNat '9'.toNat

def lower : CharSet := span 'a'.toNat 'z'.toNat

def upper : CharSet := span 'A'.toNat 'Z'.toNat

def letters : CharSet := lower ∪ upper

/-- Letters, digits and the underscore. -/
def word : CharSet := letters ∪ digits ∪ single '_'.toNat

/-- The six ASCII blanks. -/
def space : CharSet := ofText [' ', '\t', '\n', '\r', '\x0c', '\x0b']

def newline : CharSet := single '\n'.toNat

def anyButNewline : CharSet := newline.complement

def nonAscii : CharSet := ⟨[⟨0x80, maxCodePoint⟩]⟩

/-- What a Unicode property may match. -/
def unicodeProperty : CharSet := letters ∪ digits ∪ nonAscii

end CharSet

/-! ## Section 2: Shorthand classes -/

/-- The classes written as one letter after a backslash. -/
inductive Shorthand where
  | digit | notDigit | word | notWord | space | notSpace
  deriving DecidableEq, Repr

namespace Shorthand

/-- The shorthand that a letter names. -/
def ofChar? : Char → Option Shorthand
  | 'd' => some .digit
  | 'D' => some .notDigit
  | 'w' => some .word
  | 'W' => some .notWord
  | 's' => some .space
  | 'S' => some .notSpace
  | _ => none

/-- The members of a shorthand class. -/
def chars : Shorthand → CharSet
  | .digit => .digits
  | .notDigit => CharSet.digits.complement
  | .word => .word
  | .notWord => CharSet.word.complement
  | .space => .space
  | .notSpace => CharSet.space.complement

end Shorthand

/-! ## Section 3: POSIX classes -/

/-- The POSIX classes, by name in alphabetical order. -/
def posixClasses : List (String × CharSet) :=
  [("alnum", .letters ∪ .digits),
   ("alpha", .letters),
   ("ascii", .ofIntervals [⟨0x00, 0x7F⟩]),
   ("blank", .ofText [' ', '\t']),
   ("cntrl", .ofIntervals [⟨0x00, 0x1F⟩, ⟨0x7F, 0x7F⟩]),
   ("digit", .digits),
   ("graph", .ofIntervals [⟨0x21, 0x7E⟩]),
   ("lower", .lower),
   ("print", .ofIntervals [⟨0x20, 0x7E⟩]),
   ("punct", .ofIntervals [⟨0x21, 0x2F⟩, ⟨0x3A, 0x40⟩, ⟨0x5B, 0x60⟩, ⟨0x7B, 0x7E⟩]),
   ("space", .space),
   ("upper", .upper),
   ("word", .word),
   ("xdigit", .digits ∪ .span 'a'.toNat 'f'.toNat ∪ .span 'A'.toNat 'F'.toNat)]

/-- The POSIX class of a name. -/
def posixClass? (name : List Char) : Option CharSet :=
  (posixClasses.find? fun entry => entry.1.toList == name).map Prod.snd

end RegexInsight
