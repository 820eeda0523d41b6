import RegexInsight.Backtracking.Assessment

/-! # Attack Inputs

    An attack input is a lead, a unit repeated many times and a
    terminator.  The lead reaches the ambiguous repetition, the unit is
    something that its body matches, and the terminator lets the overall
    match fail, so that an engine tries every way of splitting the
    repeated run. -/

namespace RegexInsight

/-- The parts of an attack input. -/
structure Attack where
  lead : List CodePoint
  unit : List CodePoint
  terminator : List CodePoint
  deriving DecidableEq, Repr

namespace Attack

/-- The length of the input with a number of repetitions. -/
def size (a : Attack) (repetitions : Nat) : Nat :=
  a.lead.length + a.unit.length * repetitions + a.terminator.length

/-- The input with a number of repetitions. -/
def build (a : Attack) (repetitions : Nat) : List CodePoint :=
  a.lead ++ (List.replicate repetitions a.unit).flatten ++ a.terminator

end Attack

/-! ## Section 1: Shortest witnesses -/

/-- The shortest of some texts, the earliest among equally short ones. -/
def shortest : List (List CodePoint) → List CodePoint
  | [] => []
  | text :: rest =>
    rest.foldl (fun best next => if next.length < best.length then next else best) text

/-- The witness of a node from those of its children.  With `atLeastOnce`
    every quantifier takes one repetition or more, and a branch with a
    witness that is not empty is preferred. -/
def witnessOf (atLeastOnce : Bool) (label : Label) (children : List (List CodePoint)) :
    List CodePoint :=
  match label with
  | .literal c _ => [c]
  | .charClass _ _ accepts => (accepts.sample []).toList
  | .any accepts => (accepts.sample []).toList
  | .group _ => children.flatten
  | .concat => children.flatten
  | .quantifier bounds _ =>
    if bounds.max = some 0 then []
    else
      let repetitions := if atLeastOnce then max 1 bounds.min else bounds.min
      (List.replicate repetitions children.flatten).flatten
  | .alternation =>
    if atLeastOnce then shortest (children.filter fun text => !text.isEmpty)
    else shortest children
  | .conditional _ => children.headD []
  | .empty | .anchor _ | .flags _ | .lookaround _ _ | .backreference _ | .recursion _ => []

mutual

/-- A shortest text that a node can match. -/
def witness (atLeastOnce : Bool) : Node → List CodePoint
  | .node label _ children => witnessOf atLeastOnce label (witnesses atLeastOnce children)

/-- The witnesses of some nodes. -/
def witnesses (atLeastOnce : Bool) : List Node → List (List CodePoint)
  | [] => []
  | n :: rest => witness atLeastOnce n :: witnesses atLeastOnce rest

end

/-- The witnesses of all nodes in the order of completion. -/
def Pattern.shortestWitnesses (p : Pattern) (atLeastOnce : Bool) : List (List CodePoint) :=
  p.root.completed.map (witness atLeastOnce)

/-! ## Section 2: Building an attack -/

/-- A shortest text that precedes a node along its ancestors. -/
def leadTo : List Step → List CodePoint
  | [] => []
  | step :: up =>
    if step.parent.kind = .concat then
      leadTo up ++ (step.before.reverse.map (witness false)).flatten
    else leadTo up

/-- Terminators in the order in which they are tried. -/
def terminatorCandidates : List CodePoint :=
  pointsOf ['!', '#', '\n', '\x00', '~'] ++ [0xFFFF]

/-- The first terminator outside a set and outside a unit, or the first one
    at all. -/
def terminatorFor (avoid : CharSet) (unit : List CodePoint) : CodePoint :=
  (terminatorCandidates.find? fun c => !avoid.contains c && !unit.contains c).getD '!'.toNat

/-- The first of some texts that is not empty, else the letter a. -/
def firstNonempty (texts : List (List CodePoint)) : List CodePoint :=
  (texts.find? fun text => !text.isEmpty).getD ['a'.toNat]

/-- The attack on the body of a quantifier. -/
def attackOn (quantifier : Visit) (seed : List CodePoint) : Attack :=
  let body := quantifier.node.children
  let unit := firstNonempty
    [seed, (witnesses false body).flatten, (witnesses true body).flatten]
  { lead := leadTo quantifier.path
    unit := unit
    terminator := [terminatorFor quantifier.node.chars unit] }

/-- The attack on a pattern without repetition: its first characters
    repeated. -/
def attackWhole (root : Node) (seed : List CodePoint) : Attack :=
  let unit := firstNonempty [seed, (root.first.sample []).toList]
  { lead := []
    unit := unit
    terminator := [terminatorFor root.chars unit] }

/-- The quantifier that is attacked: that of a site, or without a site the
    first repeating one. -/
def Pattern.attackedQuantifier? (p : Pattern) (site : Option RiskSite) : Option Visit :=
  match site with
  | some site => some site.quantifier
  | none => p.root.visits.find? fun v => v.node.isRepeating

/-- The attack at a site; without a site, at the first repeating quantifier.
    A seed that is not empty replaces the derived unit. -/
def Pattern.attack (p : Pattern) (site : Option RiskSite) (seed : List CodePoint) : Attack :=
  match p.attackedQuantifier? site with
  | some quantifier => attackOn quantifier seed
  | none => attackWhole p.root seed

/-! ## Section 3: Planning -/

/-- Doubles a count until an input of the size limit is reached.  The inputs
    grow by at least the count each time, so `limit` is fuel enough. -/
def planFrom (a : Attack) (limit : Nat) : Nat → Nat → List Nat
  | 0, count => [count]
  | fuel + 1, count =>
    if a.unit.isEmpty || limit ≤ a.size count then [count]
    else count :: planFrom a limit fuel (2 * count)

/-- The repetition counts of a probe: `base`, twice `base` and so on up to
    the first input that is as long as the limit. -/
def Attack.plan (a : Attack) (base limit : Nat) : List Nat :=
  planFrom a limit limit base

end RegexInsight
