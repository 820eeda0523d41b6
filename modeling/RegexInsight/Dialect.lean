import RegexInsight.Profile

/-! # Dialects

    A dialect is a record of capabilities: the features that it rejects,
    the spellings of named groups that it accepts, and notes that explain
    a rejection.  Judging a profile is a look-up in that record, so a new
    dialect is a change of data only. -/

namespace RegexInsight

/-- The capabilities of one dialect. -/
structure Dialect where
  id : String
  name : String
  unsupported : List FeatureFlag
  spellings : List NameSpelling
  aliases : List String
  /-- Explanations shown when a check fails. -/
  notes : List (FeatureFlag × String)
  deriving DecidableEq, Repr

/-- What a dialect says about a profile. -/
inductive Verdict where
  | supported
  | rejected (reason : FeatureFlag) (detail : String)
  deriving DecidableEq, Repr

namespace Verdict

def isSupported : Verdict → Bool
  | supported => true
  | rejected _ _ => false

/-- The flag for which the profile is rejected. -/
def reason? : Verdict → Option FeatureFlag
  | supported => none
  | rejected reason _ => some reason

/-- The explanation of a rejection. -/
def detail? : Verdict → Option String
  | supported => none
  | rejected _ detail => some detail

end Verdict

namespace Dialect

/-- Whether a dialect rejects a flag of a profile.  Named groups are judged
    by the spellings in use, all other flags by the record. -/
def rejects (d : Dialect) (p : FeatureProfile) : FeatureFlag → Bool
  | .namedGroupSpelling => p.spellings.any fun spelling => !d.spellings.contains spelling
  | flag => d.unsupported.contains flag

/-- The note of a flag, or a general sentence when there is none. -/
def detail (d : Dialect) (flag : FeatureFlag) : String :=
  match (d.notes.find? fun note => note.1 == flag).map Prod.snd with
  | some note => if note.isEmpty then general else note
  | none => general
where
  general : String := d.name ++ " does not support " ++ flag.description

/-- The verdict of a dialect: the first flag in check order that it rejects,
    if there is one. -/
def judge (d : Dialect) (p : FeatureProfile) : Verdict :=
  match p.activeFlags.find? (d.rejects p) with
  | some flag => .rejected flag (d.detail flag)
  | none => .supported

end Dialect

end RegexInsight
