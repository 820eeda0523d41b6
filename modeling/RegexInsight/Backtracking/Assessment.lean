import RegexInsight.Profile
import RegexInsight.Text.Quoted

/-! # Static Assessment

    The risk of a pattern as far as its tree shows it: a score, the
    ambiguous places with the riskiest first, and a rewrite that removes
    the ambiguity of a place.  A score of zero means that nothing
    ambiguous was found and no probe is needed. -/

namespace RegexInsight

/-! ## Section 1: Score -/

/-- The weight of each level of nesting beyond the first. -/
def nestingWeight : Nat := 2

/-- The weight of overlapping alternations. -/
def overlapWeight : Nat := 2

/-- The risk score for a nesting depth and the presence of overlapping
    alternations. -/
def riskScore (depth : Nat) (overlapping : Bool) : Nat :=
  nestingWeight * (depth - 1) + if overlapping then overlapWeight else 0

/-- The risk score of a profile. -/
def FeatureProfile.staticScore (p : FeatureProfile) : Nat :=
  riskScore p.nestedQuantifierDepth p.hasOverlappingAlternation

/-! ## Section 2: Sites -/

namespace RiskSite

/-- The order of risk: the deeper site first, then nested quantifiers before
    alternations, then the earlier quantifier. -/
def notAfter (a b : RiskSite) : Bool :=
  if a.depth != b.depth then b.depth < a.depth
  else if a.kind != b.kind then a.kind = .nestedQuantifier
  else a.quantifier.node.start ≤ b.quantifier.node.start

/-- The site in words. -/
def describe (s : RiskSite) (pattern : Text) : String :=
  let label := match s.kind with
    | .nestedQuantifier => "nested quantifier "
    | .overlappingAlternation => "overlapping alternation "
  let quantifier := s.quantifier.node
  label ++ String.ofList (Quoted.ofText (quantifier.textIn pattern)) ++ " at position "
    ++ toString quantifier.start

end RiskSite

/-- The outcome of the static assessment. -/
structure StaticAssessment where
  score : Nat
  /-- The ambiguous places, the riskiest first. -/
  sites : List RiskSite
  /-- The places in words. -/
  constructs : List String

namespace StaticAssessment

/-- The riskiest place, if there is one. -/
def riskiest? (a : StaticAssessment) : Option RiskSite :=
  a.sites.head?

end StaticAssessment

/-- Assesses a pattern. -/
def Pattern.assess (p : Pattern) : StaticAssessment :=
  let scan := scanRepetition p.root
  let sites := scan.sites.mergeSort RiskSite.notAfter
  { score := riskScore scan.depth scan.overlapping
    sites := sites
    constructs := sites.map fun site => site.describe p.text }

/-! ## Section 3: Suggested rewrites -/

/-- A group that an atomic group can take the place of. -/
def isReplaceableGroup (n : Node) : Bool :=
  match n.label with
  | .group (.capturing _) => true
  | .group (.nonCapturing _) => true
  | _ => false

/-- The node that an atomic group around a nested quantifier replaces: the
    plain group around the quantifier if it stands alone in one, else the
    quantifier itself. -/
def atomicTarget (v : Visit) : Node :=
  match v.path with
  | step :: _ => if isReplaceableGroup step.parent then step.parent else v.node
  | [] => v.node

/-- The quantifier of a nested site rewritten with an atomic group around
    what is nested in it. -/
def rewriteNested (pattern : Text) (site : RiskSite) : Text :=
  let inner := site.cause.node
  let outer := site.quantifier.node
  let target := atomicTarget site.cause
  slice pattern outer.start target.start ++ ['(', '?', '>']
    ++ slice pattern inner.start inner.stop ++ [')'] ++ slice pattern target.stop outer.stop

/-- A rewrite that removes the ambiguity of a site. -/
def Pattern.suggestFix (p : Pattern) (site : RiskSite) : String :=
  match site.kind with
  | .overlappingAlternation =>
    "Make the alternatives in " ++ String.ofList (Quoted.ofText (p.textOf site.cause.node))
      ++ " mutually exclusive, or wrap the repeated group in an atomic group (?>...)"
  | .nestedQuantifier =>
    "Use an atomic group or possessive quantifier: "
      ++ String.ofList (rewriteNested p.text site)

end RegexInsight
