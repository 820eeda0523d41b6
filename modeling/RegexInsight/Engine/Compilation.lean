import RegexInsight.Engine

/-! # Compilation

    A pattern is compiled by the first program of its engine family that
    accepts it.  A linear-time program may reject syntax that the profile
    does not flag, so the backtracking programs come after it; the last
    one accepts the widest syntax, and its reason is the one reported. -/

namespace RegexInsight

/-- The programs that execute patterns. -/
inductive Engine where
  | re2 | re | regex
  deriving DecidableEq, Repr

namespace Engine

/-- The name of a program in reports. -/
def name : Engine → String
  | re2 => "re2"
  | re => "re"
  | regex => "regex"

/-- The family of a program. -/
def variant : Engine → EngineVariant
  | re2 => .linearTime
  | re => .backtracking
  | regex => .backtracking

/-- The programs tried for a family before the last one. -/
def preferred : EngineVariant → List Engine
  | .linearTime => [re2, re]
  | .backtracking => [re]

/-- The program that has the last word. -/
def lastResort : Engine := regex

end Engine

/-- What each program says to a pattern: nothing when it accepts it, else the
    reason of the rejection. -/
abbrev EngineAnswers := Engine → Option String

/-- A pattern with the program that compiled it. -/
structure CompiledPattern where
  pattern : Text
  engine : Engine
  deriving DecidableEq, Repr

/-- A pattern that no program accepts. -/
structure EngineRejection where
  pattern : Text
  reason : String
  deriving DecidableEq, Repr

namespace EngineRejection

def message (e : EngineRejection) : String :=
  "No backtracking engine accepts pattern: " ++ e.reason

/-- The rejection on one line. -/
def summary (e : EngineRejection) : String :=
  e.message ++ " | cause=" ++ e.reason

end EngineRejection

/-- Why compilation stops. -/
inductive CompileFailure where
  | inconsistent (violation : InvariantViolation)
  | rejected (rejection : EngineRejection)
  deriving DecidableEq, Repr

namespace Pattern

/-- Compiles a pattern for a family. -/
def compileFor (p : Pattern) (answers : EngineAnswers) (variant : EngineVariant) :
    Except EngineRejection CompiledPattern :=
  match (Engine.preferred variant).find? fun engine => (answers engine).isNone with
  | some engine => .ok ⟨p.text, engine⟩
  | none =>
    match answers Engine.lastResort with
    | none => .ok ⟨p.text, Engine.lastResort⟩
    | some reason => .error ⟨p.text, reason⟩

/-- Compiles a pattern, for its own family unless another is asked for. -/
def compile (p : Pattern) (answers : EngineAnswers) (variant : Option EngineVariant) :
    Except CompileFailure CompiledPattern := do
  let variant ← match variant with
    | some variant => pure variant
    | none => p.select.mapError CompileFailure.inconsistent
  (p.compileFor answers variant).mapError CompileFailure.rejected

end Pattern

end RegexInsight
