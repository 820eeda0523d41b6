import RegexInsight.CharSet

/-! # Whitespace

    Whitespace is what has the bidirectional class of a separator or the
    general category Zs: the ASCII blanks, the four information
    separators, and the spaces and line separators beyond ASCII. -/

namespace RegexInsight

namespace Unicode

/-- The whitespace characters. -/
def whitespace : CharSet := ⟨[
    ⟨0x9, 0xD⟩, ⟨0x1C, 0x20⟩, ⟨0x85, 0x85⟩, ⟨0xA0, 0xA0⟩, ⟨0x1680, 0x1680⟩, ⟨0x2000, 0x200A⟩,
    ⟨0x2028, 0x2029⟩, ⟨0x202F, 0x202F⟩, ⟨0x205F, 0x205F⟩, ⟨0x3000, 0x3000⟩]⟩

end Unicode

/-- Whether a character is whitespace. -/
def isSpace (c : Char) : Bool :=
  Unicode.whitespace.contains c.toNat

/-- A text without the whitespace at its two ends. -/
def trimmed (text : List Char) : List Char :=
  ((text.dropWhile isSpace).reverse.dropWhile isSpace).reverse

end RegexInsight
