import RegexInsight.Pattern.Cursor

/-! # Quantifier Bounds

    A brace opens a quantifier only if bounds follow: `{n}`, `{n,}`,
    `{,m}` or `{n,m}` with decimal digits.  Any other brace is a literal
    character. -/

namespace RegexInsight

namespace Bounds

/-- The written parts of bounds at a brace: the lower digits, whether a
    comma follows, the upper digits, and the cursor after the closing
    brace. -/
def written? (cur : Cursor) : Option ((Text × Bool × Text) × Cursor) :=
  match cur.rest with
  | '{' :: _ =>
    let (low, afterLow) := (cur.advance 1).run isDecimal
    let comma := afterLow.rest.head? == some ','
    let (high, afterHigh) := (if comma then afterLow.advance 1 else afterLow).run isDecimal
    if afterHigh.rest.head? == some '}' && !(low.isEmpty && high.isEmpty) then
      some ((low, comma, high), afterHigh.advance 1)
    else none
  | _ => none

/-- The bounds that written parts denote: a missing lower bound is zero, a
    missing upper bound after a comma is absent, and without a comma both
    bounds are equal. -/
def ofWritten (low : Text) (comma : Bool) (high : Text) : Read Bounds := do
  let least ← if low.isEmpty then pure 0 else Read.number low
  if !comma then return ⟨least, some least⟩
  else if high.isEmpty then return ⟨least, none⟩
  else return ⟨least, some (← Read.number high)⟩

/-- The bounds at a brace, if it opens a quantifier. -/
def readBraces (cur : Cursor) : Read (Option (Bounds × Cursor)) :=
  match written? cur with
  | none => .ok none
  | some ((low, comma, high), after) => do
    return some (← ofWritten low comma high, after)

/-- The quantifier at the cursor, if there is one. -/
def read? (cur : Cursor) : Read (Option (Bounds × Cursor)) :=
  match cur.rest with
  | '*' :: _ => .ok (some (⟨0, none⟩, cur.advance 1))
  | '+' :: _ => .ok (some (⟨1, none⟩, cur.advance 1))
  | '?' :: _ => .ok (some (⟨0, some 1⟩, cur.advance 1))
  | _ => readBraces cur

end Bounds

namespace QuantifierMode

/-- The mode that a suffix of a quantifier asks for, and the cursor after
    it. -/
def read (cur : Cursor) : QuantifierMode × Cursor :=
  match cur.rest with
  | '?' :: _ => (.lazy, cur.advance 1)
  | '+' :: _ => (.possessive, cur.advance 1)
  | _ => (.greedy, cur)

end QuantifierMode

end RegexInsight
