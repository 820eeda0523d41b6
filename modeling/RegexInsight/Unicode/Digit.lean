import RegexInsight.Unicode.Decimal

/-! # Digit Characters

    Digit characters are the decimal digits together with characters such
    as superscripts and circled digits, which stand for a digit but do not
    form numerals. -/

namespace RegexInsight

namespace Unicode

/-- The digit characters that are no decimal digits. -/
def nonDecimalDigits : CharSet := ⟨[
    ⟨0xB2, 0xB3⟩, ⟨0xB9, 0xB9⟩, ⟨0x1369, 0x1371⟩, ⟨0x19DA, 0x19DA⟩, ⟨0x2070, 0x2070⟩,
    ⟨0x2074, 0x2079⟩, ⟨0x2080, 0x2089⟩, ⟨0x2460, 0x2468⟩, ⟨0x2474, 0x247C⟩, ⟨0x2488, 0x2490⟩,
    ⟨0x24EA, 0x24EA⟩, ⟨0x24F5, 0x24FD⟩, ⟨0x24FF, 0x24FF⟩, ⟨0x2776, 0x277E⟩, ⟨0x2780, 0x2788⟩,
    ⟨0x278A, 0x2792⟩, ⟨0x10A40, 0x10A43⟩, ⟨0x10E60, 0x10E68⟩, ⟨0x11052, 0x1105A⟩,
    ⟨0x1F100, 0x1F10A⟩]⟩

end Unicode

/-- Whether a character is a digit character. -/
def isDigitChar (c : Char) : Bool :=
  isDecimal c || Unicode.nonDecimalDigits.contains c.toNat

/-- Whether a text is non-empty and made of digit characters. -/
def isDigitText (text : List Char) : Bool :=
  !text.isEmpty && text.all isDigitChar

end RegexInsight
