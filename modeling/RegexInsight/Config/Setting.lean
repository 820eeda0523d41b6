import RegexInsight.Decimal.Shortest
import RegexInsight.Decimal.Fixed
import RegexInsight.Text.Number
import RegexInsight.Text.Quoted

/-! # Settings

    The values in a configuration document: nothing, switches, numbers,
    texts, lists and mappings.  An option asks for a value of some kind;
    what a value stands for where the kinds differ is decided here.

    A switch stands for one or zero where a number is asked for, a number
    with a fraction for the whole number below it where a count is asked
    for, and any value that is not blank switches an option on.  Whole
    numbers and doubles compare as the numbers that they are, without
    rounding; what is no number compares with nothing. -/

namespace RegexInsight

/-- A value in a document. -/
inductive Setting where
  | null
  | bool (value : Bool)
  | int (value : Int)
  | real (value : Float)
  | text (value : String)
  | list (items : List Setting)
  | mapping (fields : List (String × Setting))

/-- What a setting is. -/
inductive SettingKind where
  | null | bool | int | real | text | list | mapping
  deriving DecidableEq, Repr

namespace Setting

/-! ## Section 1: Kinds -/

/-- The kind of a setting. -/
def kind : Setting → SettingKind
  | null => .null
  | bool _ => .bool
  | int _ => .int
  | real _ => .real
  | text _ => .text
  | list _ => .list
  | mapping _ => .mapping

/-- Settings that stand for a missing one. -/
def isBlank : Setting → Bool
  | null => true
  | bool value => !value
  | int value => value == 0
  | real value => value == 0.0
  | text value => value.isEmpty
  | list items => items.isEmpty
  | mapping fields => fields.isEmpty

/-! ## Section 2: What a setting stands for -/

/-- The number of a switch. -/
def switchNumber (on : Bool) : Int :=
  if on then 1 else 0

/-- The greatest whole number that is not above a finite double. -/
def wholeBelow? (x : Float) : Option Int :=
  (Dyadic.ofFloat? x).map fun d =>
    let (num, den) := d.magnitude
    (if d.negative then -(num : Int) else num).fdiv den

/-- The count that a setting stands for. -/
def toCount? : Setting → Option Int
  | bool value => some (switchNumber value)
  | int value => some value
  | real value => wholeBelow? value
  | _ => none

/-- The real number that a setting stands for. -/
def toReal? : Setting → Option Float
  | bool value => some (Float.ofInt (switchNumber value))
  | int value => some (Float.ofInt value)
  | real value => some value
  | _ => none

/-- Whether a setting switches an option on. -/
def isOn (value : Setting) : Bool :=
  !value.isBlank

end Setting

/-! ## Section 3: Comparing -/

/-- A number as it is given in a document. -/
inductive SettingNumber where
  | whole (value : Int)
  | real (value : Float)

namespace SettingNumber

/-- A double that is no number. -/
def isNaN : SettingNumber → Bool
  | whole _ => false
  | real value => value.isNaN

/-- Whether a number is less than another one. -/
def isBelow : SettingNumber → SettingNumber → Bool
  | whole m, whole n => m < n
  | real x, real y => x < y
  | real x, whole n =>
    match Setting.wholeBelow? x with
    | some below => below < n
    | none => x < 0.0
  | whole m, real y =>
    match Setting.wholeBelow? (-y) with
    | some below => below < -m
    | none => 0.0 < y

/-- Whether a number is not greater than another one. -/
def isAtMost (a b : SettingNumber) : Bool :=
  !a.isNaN && !b.isNaN && !b.isBelow a

end SettingNumber

namespace Setting

/-- The number that a setting is compared as. -/
def number? : Setting → Option SettingNumber
  | bool value => some (.whole (switchNumber value))
  | int value => some (.whole value)
  | real value => some (.real value)
  | _ => none

/-! ## Section 4: Showing -/

/-- A real number as it shows in a message. -/
def shownReal (x : Float) : String :=
  if x.isFinite then Decimal.floatText x else Decimal.fixed 0 x

/-- A text in quotes as it shows in a message. -/
def shownText (t : String) : String :=
  String.ofList (Quoted.ofText t.toList)

mutual

/-- A setting as it shows inside another one. -/
def shownInside : Setting → String
  | null => "None"
  | bool value => if value then "True" else "False"
  | int value => toString value
  | real value => shownReal value
  | text value => shownText value
  | list items => "[" ++ ", ".intercalate (shownItems items) ++ "]"
  | mapping fields => "\x7b" ++ ", ".intercalate (shownFields fields) ++ "\x7d"

/-- The items of a list as they show. -/
def shownItems : List Setting → List String
  | [] => []
  | item :: rest => item.shownInside :: shownItems rest

/-- The fields of a mapping as they show. -/
def shownFields : List (String × Setting) → List String
  | [] => []
  | (name, value) :: rest =>
    (shownText name ++ ": " ++ value.shownInside) :: shownFields rest

end

mutual

/-- Whether a setting can be shown: no integer in it has too many digits. -/
def isShowable : Setting → Bool
  | int value => (Numeral.write value.natAbs).isOk
  | list items => areShowable items
  | mapping fields => haveShowable fields
  | _ => true

/-- Whether all items of a list can be shown. -/
def areShowable : List Setting → Bool
  | [] => true
  | item :: rest => item.isShowable && areShowable rest

/-- Whether all fields of a mapping can be shown. -/
def haveShowable : List (String × Setting) → Bool
  | [] => true
  | (_, value) :: rest => value.isShowable && haveShowable rest

end

/-- A setting as it shows in a message; a text shows without quotes. -/
def shown : Setting → String
  | text value => value
  | other => other.shownInside

end Setting

end RegexInsight
