import RegexInsight.Dialect.Builtin

/-! # Portability

    The verdicts of the requested dialects on one profile, one per dialect
    in the order of the first request. -/

namespace RegexInsight

/-- Verdicts by dialect id, in request order. -/
structure PortabilityReport where
  verdicts : List (String × Verdict)
  deriving DecidableEq, Repr

namespace PortabilityReport

/-- The dialects that support the profile. -/
def supported (r : PortabilityReport) : List String :=
  (r.verdicts.filter fun entry => entry.2.isSupported).map Prod.fst

/-- The dialects that reject the profile. -/
def unsupported (r : PortabilityReport) : List String :=
  (r.verdicts.filter fun entry => !entry.2.isSupported).map Prod.fst

/-- Every requested dialect supports the profile. -/
def isFullyPortable (r : PortabilityReport) : Bool :=
  r.verdicts.all fun entry => entry.2.isSupported

/-- The verdict of a dialect. -/
def verdict? (r : PortabilityReport) (id : String) : Option Verdict :=
  (r.verdicts.find? fun entry => entry.1 == id).map Prod.snd

end PortabilityReport

/-- Keeps the first of equal entries. -/
def firstOccurrences (names : List String) : List String :=
  names.foldl (fun kept name => if kept.contains name then kept else kept ++ [name]) []

namespace Registry

/-- The ids to judge: those of the requested names without repetition, or all
    of them when nothing in particular is requested. -/
def targets (r : Registry) : Option (List String) → Except UnknownDialect (List String)
  | none => .ok r.ids
  | some names => do return firstOccurrences (← names.mapM r.resolve)

/-- Checks a profile against the requested dialects.  An unknown name is
    reported before any verdict. -/
def check (r : Registry) (p : FeatureProfile) (requested : Option (List String)) :
    Except UnknownDialect PortabilityReport := do
  let ids ← r.targets requested
  return ⟨← ids.mapM fun id => do return (id, (← r.get id).judge p)⟩

end Registry

end RegexInsight
