import RegexInsight.Explanation.Part
import RegexInsight.Explanation.Wording
import RegexInsight.Pattern

/-! # Explanation

    A pattern taken apart into parts in plain words.  Every node gives its
    parts from those of its children: a concatenation is dissolved, a
    quantifier is folded into the part of its operand, and all other nodes
    give one part each, the branches of an alternation or conditional one
    more. -/

namespace RegexInsight

/-! ## Section 1: Parts of one node -/

/-- A quantifier on the parts of its operand. -/
def quantified (token suffix : Text) (bounds : Bounds) (mode : QuantifierMode)
    (operand : List Part) : List Part :=
  let described := describeQuantifier bounds mode
  let apart : List Part :=
    [{ kind := .repetition
       token := token
       description := described ++ " of the preceding element"
       quantifier := some suffix
       group := none
       children := operand }]
  match operand with
  | [part] =>
    if part.quantifier.isNone then
      [{ part with
         token := part.token ++ suffix
         description := part.description ++ " (" ++ uncapitalized described ++ ")"
         quantifier := some suffix }]
    else apart
  | _ => apart

/-- The part of a group. -/
def groupPart (token : Text) (kind : GroupKind) (body : List Part) : Part :=
  match kind with
  | .capturing index =>
    ⟨.capturingGroup, token, "Capturing group", none, some index, body⟩
  | .named index name _ =>
    ⟨.namedGroup, token, "Named capture: " ++ String.ofList name, none, some index, body⟩
  | .atomic =>
    .around .atomicGroup token "Atomic group: no backtracking into the group once matched" body
  | .nonCapturing none => .around .nonCapturingGroup token "Non-capturing group" body
  | .nonCapturing (some flags) =>
    let words := String.ofList (lowercase (describeFlags flags).toList)
    .around .nonCapturingGroup token ("Non-capturing group (" ++ words ++ ")") body

/-- The part of a lookaround. -/
def lookaroundPart (token : Text) (direction : LookDirection) (negated : Bool)
    (body : List Part) : Part :=
  let sense := if negated then "Negative" else "Positive"
  match direction with
  | .ahead => .around .lookahead token
      (sense ++ " lookahead: checks what follows without consuming characters") body
  | .behind => .around .lookbehind token
      (sense ++ " lookbehind: checks what precedes without consuming characters") body

/-- The part of a class. -/
def classPart (token source : Text) (traits : ClassTraits) : Part :=
  if source.head? = some '[' then
    .leaf .characterClass token (describeBracket traits.negated)
  else if traits.unicodeProperty then .leaf .unicodeClass token (describeProperty source)
  else .leaf .shorthandClass token (describeShorthand source)

/-- The number of the group that a reference names. -/
def referredGroup (names : List (Text × Nat)) (target : Text) : Option Nat :=
  if isDigitText target then some (Numeral.value target) else names.lookup target

/-- A recursion in words. -/
def describeRecursion (target : Text) : String :=
  if [[], ['R'], ['0']].contains target then "Recursion into the whole pattern"
  else "Recursion into group " ++ String.ofList target

/-- The parts of branches, described one by one. -/
def branchParts (describe : Nat → String) (tokens : List Text) (bodies : List (List Part)) :
    List Part :=
  (tokens.zip bodies).zipIdx.map fun ((token, body), i) =>
    .around .branch token (describe i) body

/-- What a branch of a conditional is for. -/
def describeCondition : Nat → String
  | 0 => "Branch if the condition holds"
  | _ => "Branch otherwise"

/-- The parts of a node from those of its children. -/
def partsOf (p : Pattern) (n : Node) (bodies : List (List Part)) : List Part :=
  let token := p.textOf n
  let branches (describe : Nat → String) : List Part :=
    branchParts describe (n.children.map p.textOf) bodies
  match n.label with
  | .empty => []
  | .concat => bodies.flatten
  | .literal c _ => [.leaf .literal token (describeLiteral c token)]
  | .any _ => [.leaf .anyChar token "Matches any character (except newline by default)"]
  | .anchor a => [.leaf .anchor token (describeAnchor a)]
  | .charClass source traits _ => [classPart token source traits]
  | .flags text => [.leaf .flags token (describeFlags text)]
  | .quantifier bounds mode =>
    let operandStop := (n.children.map Node.stop).headD n.start
    quantified token (slice p.text operandStop n.stop) bounds mode bodies.flatten
  | .group kind => [groupPart token kind bodies.flatten]
  | .alternation =>
    [.around .alternation token
      ("Match one of " ++ toString n.children.length ++ " alternatives")
      (branches fun _ => "Alternative branch")]
  | .lookaround direction negated => [lookaroundPart token direction negated bodies.flatten]
  | .backreference target =>
    [{ Part.leaf .backreference token
        ("Same text as group " ++ String.ofList target ++ " matched") with
       group := referredGroup p.groupNames target }]
  | .recursion target => [.leaf .recursion token (describeRecursion target)]
  | .conditional condition =>
    [.around .conditional token ("Conditional on group " ++ String.ofList condition)
      (branches describeCondition)]

/-! ## Section 2: The whole pattern -/

mutual

/-- The parts of a node. -/
def explainNode (p : Pattern) : Node → List Part
  | .node label mark children =>
    partsOf p (.node label mark children) (explainNodes p children)

/-- The parts of some nodes, one list for each. -/
def explainNodes (p : Pattern) : List Node → List (List Part)
  | [] => []
  | n :: rest => explainNode p n :: explainNodes p rest

end

/-- The parts of a pattern. -/
def Pattern.parts (p : Pattern) : List Part :=
  explainNode p p.root

end RegexInsight
