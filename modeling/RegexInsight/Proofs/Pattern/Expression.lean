import Mathlib
import RegexInsight.Proofs.Pattern.Move
import RegexInsight.Text.Literal

/-! # Expressions

    The pattern language as abstract syntax, with the text that each
    expression is printed as and the tree of labels that it stands for.
    Capturing groups are numbered in the order in which they open, so the
    tree of an expression depends on the number of groups opened before
    it. -/

namespace RegexInsight

/-! ## Section 1: Syntax -/

/-- What a reference refers to. -/
inductive Target where
  | number (index : Nat)
  | name (word : Text)
  deriving DecidableEq, Repr

/-- The ways to write a group. -/
inductive GroupForm where
  | capturing
  | named (name : Text) (spelling : NameSpelling)
  | nonCapturing
  | atomic
  deriving DecidableEq, Repr

/-- Abstract syntax of the pattern language. -/
inductive Expression where
  /-- Nothing written. -/
  | empty
  | literal (char : Char)
  | shorthand (kind : Shorthand)
  | dot
  | anchor (kind : Anchor)
  | backreference (target : Target)
  /-- The whole pattern, called from within. -/
  | recursion
  | group (form : GroupForm) (body : Expression)
  | lookaround (direction : LookDirection) (negated : Bool) (body : Expression)
  | quantified (bounds : Bounds) (mode : QuantifierMode) (operand : Expression)
  | concat (items : List Expression)
  | alternation (branches : List Expression)
  | conditional (condition : Target) (branches : List Expression)
  deriving Repr

/-! ## Section 2: Printing -/

namespace Target

/-- A target by itself. -/
def text : Target → Text
  | number index => Nat.toDigits 10 index
  | name word => word

/-- The backreference to a target. -/
def backreferenceText : Target → Text
  | number index => ['\\', 'g', '\x7b'] ++ Nat.toDigits 10 index ++ ['\x7d']
  | name word => ['\\', 'k', '<'] ++ word ++ ['>']

end Target

namespace GroupForm

/-- What opens a group. -/
def opening : GroupForm → Text
  | capturing => ['(']
  | named name .pAngle => ['(', '?', 'P', '<'] ++ name ++ ['>']
  | named name .angle => ['(', '?', '<'] ++ name ++ ['>']
  | named name .quote => ['(', '?', '\''] ++ name ++ ['\'']
  | nonCapturing => ['(', '?', ':']
  | atomic => ['(', '?', '>']

/-- How many groups a form numbers. -/
def count : GroupForm → Nat
  | capturing => 1
  | named _ _ => 1
  | nonCapturing => 0
  | atomic => 0

/-- The names that a form gives to the group with a number. -/
def names (index : Nat) : GroupForm → List (Text × Nat)
  | named name _ => [(name, index)]
  | _ => []

/-- The kind of group that a form opens, with its number if it has one. -/
def kind (index : Nat) : GroupForm → GroupKind
  | capturing => .capturing index
  | named name spelling => .named index name spelling
  | nonCapturing => .nonCapturing none
  | atomic => .atomic

end GroupForm

/-- What opens a lookaround. -/
def lookaroundOpening : LookDirection → Bool → Text
  | .ahead, false => ['(', '?', '=']
  | .ahead, true => ['(', '?', '!']
  | .behind, false => ['(', '?', '<', '=']
  | .behind, true => ['(', '?', '<', '!']

/-- The letter of a shorthand. -/
def Shorthand.letter : Shorthand → Char
  | digit => 'd'
  | notDigit => 'D'
  | word => 'w'
  | notWord => 'W'
  | space => 's'
  | notSpace => 'S'

/-- Bounds in braces: one number when both are equal, and nothing after the
    comma when there is no upper one. -/
def Bounds.text (bounds : Bounds) : Text :=
  let upper := match bounds.max with
    | none => [',']
    | some high => if high = bounds.min then [] else ',' :: Nat.toDigits 10 high
  '\x7b' :: (Nat.toDigits 10 bounds.min ++ upper ++ ['\x7d'])

/-- The suffix of a quantifier. -/
def QuantifierMode.suffix : QuantifierMode → Text
  | greedy => []
  | lazy => ['?']
  | possessive => ['+']

namespace Expression

mutual

/-- The text of an expression. -/
def text : Expression → Text
  | empty => []
  | literal char => Literal.escapeChar char
  | shorthand kind => ['\\', kind.letter]
  | dot => ['.']
  | anchor kind => kind.text
  | backreference target => target.backreferenceText
  | recursion => ['(', '?', 'R', ')']
  | group form body => form.opening ++ body.text ++ [')']
  | lookaround direction negated body => lookaroundOpening direction negated ++ body.text ++ [')']
  | quantified bounds mode operand => operand.text ++ (bounds.text ++ mode.suffix)
  | concat items => (texts items).flatten
  | alternation branches => ['|'].intercalate (texts branches)
  | conditional condition branches =>
    ['(', '?', '('] ++ condition.text ++ [')'] ++ ['|'].intercalate (texts branches) ++ [')']

/-- The texts of some expressions. -/
def texts : List Expression → List Text
  | [] => []
  | e :: rest => e.text :: texts rest

end

/-! ## Section 3: Groups and references -/

mutual

/-- How many groups an expression opens. -/
def groupCount : Expression → Nat
  | group form body => form.count + body.groupCount
  | lookaround _ _ body => body.groupCount
  | quantified _ _ operand => operand.groupCount
  | concat items => groupCounts items
  | alternation branches => groupCounts branches
  | conditional _ branches => groupCounts branches
  | _ => 0

/-- How many groups some expressions open. -/
def groupCounts : List Expression → Nat
  | [] => 0
  | e :: rest => e.groupCount + groupCounts rest

end

mutual

/-- The named groups of an expression with their numbers, when `opened`
    groups are opened before it. -/
def groupNames (opened : Nat) : Expression → List (Text × Nat)
  | group form body => form.names (opened + 1) ++ body.groupNames (opened + form.count)
  | lookaround _ _ body => body.groupNames opened
  | quantified _ _ operand => operand.groupNames opened
  | concat items => groupNamesAll opened items
  | alternation branches => groupNamesAll opened branches
  | conditional _ branches => groupNamesAll opened branches
  | _ => []

/-- The named groups of some expressions, one after the other. -/
def groupNamesAll (opened : Nat) : List Expression → List (Text × Nat)
  | [] => []
  | e :: rest => e.groupNames opened ++ groupNamesAll (opened + e.groupCount) rest

end

mutual

/-- The targets of the references in an expression. -/
def targets : Expression → List Target
  | backreference target => [target]
  | group _ body => body.targets
  | lookaround _ _ body => body.targets
  | quantified _ _ operand => operand.targets
  | concat items => targetsAll items
  | alternation branches => targetsAll branches
  | conditional condition branches => condition :: targetsAll branches
  | _ => []

/-- The targets of the references in some expressions. -/
def targetsAll : List Expression → List Target
  | [] => []
  | e :: rest => e.targets ++ targetsAll rest

end

end Expression

/-! ## Section 4: Trees of labels -/

/-- A tree of labels: what is left of a node without its place in the
    text. -/
inductive Shape where
  | node (label : Label) (children : List Shape)

namespace Node

mutual

/-- The labels of a node and everything below it. -/
def shape : Node → Shape
  | node label _ children => .node label (shapes children)

/-- The shapes of some nodes. -/
def shapes : List Node → List Shape
  | [] => []
  | n :: rest => n.shape :: shapes rest

end

theorem shapes_eq_map (nodes : List Node) : shapes nodes = nodes.map shape := by
  induction nodes with
  | nil => rfl
  | cons n rest ih => rw [shapes, ih, List.map_cons]

@[simp] theorem shape_build (count : Nat) (label : Label) (start stop : Nat)
    (children : List Node) :
    (build count label start stop children).shape = .node label (children.map shape) := by
  rw [build, shape, shapes_eq_map]

end Node

namespace Expression

mutual

/-- The tree that an expression stands for, when `opened` groups are opened
    before it. -/
def shape (opened : Nat) : Expression → Shape
  | empty => .node .empty []
  | literal char => .node (Modes.none.literal char.toNat) []
  | shorthand kind => .node (.charClass ['\\', kind.letter] .plain kind.chars) []
  | dot => .node Modes.none.dot []
  | anchor kind => .node (.anchor kind) []
  | backreference target => .node (.backreference target.text) []
  | recursion => .node (.recursion ['R']) []
  | group form body =>
    .node (.group (form.kind (opened + 1))) [body.shape (opened + form.count)]
  | lookaround direction negated body =>
    .node (.lookaround direction negated) [body.shape opened]
  | quantified bounds mode operand => .node (.quantifier bounds mode) [operand.shape opened]
  | concat items => .node .concat (shapes opened items)
  | alternation branches => .node .alternation (shapes opened branches)
  | conditional condition branches =>
    .node (.conditional condition.text) (shapes opened branches)

/-- The trees of some expressions, one after the other. -/
def shapes (opened : Nat) : List Expression → List Shape
  | [] => []
  | e :: rest => e.shape opened :: shapes (opened + e.groupCount) rest

end

end Expression

/-! ## Section 5: Reading a tree off -/

/-- A text of digits is a number, any other text a name. -/
def Target.ofText (text : Text) : Target :=
  if isDigitText text then .number (Numeral.value text) else .name text

/-- How a group of a kind is written, whatever its number. -/
def GroupForm.ofKind : GroupKind → GroupForm
  | .capturing _ => .capturing
  | .named _ name spelling => .named name spelling
  | .nonCapturing _ => .nonCapturing
  | .atomic => .atomic

/-- The expression of a node from its label and the expressions of its
    children. -/
def Label.expression (label : Label) (children : List Expression) : Expression :=
  match label with
  | .empty => .empty
  | .literal char _ => .literal (Char.ofNat char)
  | .charClass source _ _ =>
    match source.getLast?.bind Shorthand.ofChar? with
    | some kind => .shorthand kind
    | none => .empty
  | .any _ => .dot
  | .anchor kind => .anchor kind
  | .flags _ => .empty
  | .backreference target => .backreference (.ofText target)
  | .recursion _ => .recursion
  | .group kind => .group (.ofKind kind) (children.headD .empty)
  | .lookaround direction negated => .lookaround direction negated (children.headD .empty)
  | .quantifier bounds mode => .quantified bounds mode (children.headD .empty)
  | .concat => .concat children
  | .alternation => .alternation children
  | .conditional condition => .conditional (.ofText condition) children

namespace Shape

mutual

/-- The expression that a tree is read as.  Flags and classes that are no
    shorthand are no part of the abstract syntax. -/
def expression : Shape → Expression
  | node label children => label.expression (expressions children)

/-- The expressions that some trees are read as. -/
def expressions : List Shape → List Expression
  | [] => []
  | s :: rest => s.expression :: expressions rest

end

end Shape

namespace Expression

/-! ## Section 6: Normal form -/

/-- What can stand beside other things in a branch. -/
def isItem : Expression → Bool
  | empty => false
  | concat _ => false
  | alternation _ => false
  | _ => true

/-- What a quantifier can stand over. -/
def isOperand : Expression → Bool
  | anchor _ => false
  | quantified _ _ _ => false
  | e => e.isItem

/-- What can stand between bars. -/
def isBranch : Expression → Bool
  | alternation _ => false
  | _ => true

end Expression

/-- A number that can be written, which it then is in its digits. -/
def IsWritable (n : Nat) : Prop :=
  Numeral.write n = .ok (Nat.toDigits 10 n)

theorem isWritable_of_lt {n : Nat} (h : n < 10 ^ Numeral.maxDigits) : IsWritable n :=
  Numeral.write_eq_ok_iff.mpr ⟨rfl, Nat.toDigits_length 10 n Numeral.maxDigits (by decide) h⟩

/-- A number that was read can be written. -/
theorem isWritable_of_read {text : Text} {n : Nat} (h : Numeral.read text = .ok n) :
    IsWritable n := by
  obtain ⟨-, -, hlength, rfl⟩ := Numeral.read_eq_ok_iff.mp h
  exact isWritable_of_lt (Nat.lt_of_lt_of_le (Numeral.value_lt text)
    (Nat.pow_le_pow_right (by decide) hlength))

/-- A number that can be written, or a name in its form. -/
def Target.IsPrintable : Target → Prop
  | number index => IsWritable index
  | name word => isGroupName word = true

/-- Bounds in order that can be written. -/
structure Bounds.IsPrintable (bounds : Bounds) : Prop where
  ordered : bounds.Ordered
  min : IsWritable bounds.min
  max : ∀ high, bounds.max = some high → IsWritable high

/-- A group with a name in its form, if it has a name. -/
def GroupForm.IsPrintable : GroupForm → Prop
  | named name _ => isGroupName name = true
  | _ => True

namespace Expression

/-- Expressions in normal form that can be printed. -/
inductive IsPrintable : Expression → Prop where
  | empty : IsPrintable empty
  | literal {char : Char} : IsPrintable (literal char)
  | shorthand {kind : Shorthand} : IsPrintable (shorthand kind)
  | dot : IsPrintable dot
  | anchor {kind : Anchor} : IsPrintable (anchor kind)
  | backreference {target : Target} (htarget : target.IsPrintable) :
      IsPrintable (backreference target)
  | recursion : IsPrintable recursion
  | group {form : GroupForm} {body : Expression} (hform : form.IsPrintable)
      (hbody : body.IsPrintable) : IsPrintable (group form body)
  | lookaround {direction : LookDirection} {negated : Bool} {body : Expression}
      (hbody : body.IsPrintable) : IsPrintable (lookaround direction negated body)
  | quantified {bounds : Bounds} {mode : QuantifierMode} {operand : Expression}
      (hbounds : bounds.IsPrintable) (hoperand : operand.isOperand = true)
      (hprintable : operand.IsPrintable) : IsPrintable (quantified bounds mode operand)
  | concat {items : List Expression} (hlength : 2 ≤ items.length)
      (hitems : ∀ item ∈ items, item.isItem = true)
      (hprintable : ∀ item ∈ items, item.IsPrintable) : IsPrintable (concat items)
  | alternation {branches : List Expression} (hlength : 2 ≤ branches.length)
      (hbranches : ∀ branch ∈ branches, branch.isBranch = true)
      (hprintable : ∀ branch ∈ branches, branch.IsPrintable) : IsPrintable (alternation branches)
  | conditional {condition : Target} {branches : List Expression}
      (hcondition : condition.IsPrintable) (hsome : branches ≠ []) (hlength : branches.length ≤ 2)
      (hbranches : ∀ branch ∈ branches, branch.isBranch = true)
      (hprintable : ∀ branch ∈ branches, branch.IsPrintable) :
      IsPrintable (conditional condition branches)

/-- The target is a group of the expression. -/
def Resolves (e : Expression) : Target → Prop
  | .number index => 1 ≤ index ∧ index ≤ e.groupCount
  | .name word => ∃ index, (word, index) ∈ e.groupNames 0

/-- A whole pattern: names are given once, and references refer to its
    groups. -/
structure IsPattern (e : Expression) : Prop where
  printable : e.IsPrintable
  distinct : ((e.groupNames 0).map Prod.fst).Nodup
  resolved : ∀ target ∈ e.targets, e.Resolves target

end Expression

/-! ## Section 7: Branches and items -/

namespace Expression

/-- The items that stand in an expression as one branch. -/
def items : Expression → List Expression
  | empty => []
  | concat items => items
  | e => [e]

/-- What stands between the bars of an expression. -/
def branches : Expression → List Expression
  | alternation branches => branches
  | e => [e]

variable {e : Expression} {opened : Nat}

theorem items_of_isItem (h : e.isItem = true) : e.items = [e] := by
  cases e <;> first | rfl | exact Bool.noConfusion h

theorem branches_of_isBranch (h : e.isBranch = true) : e.branches = [e] := by
  cases e <;> first | rfl | exact Bool.noConfusion h

theorem isBranch_of_isItem (h : e.isItem = true) : e.isBranch = true := by
  cases e <;> first | rfl | exact Bool.noConfusion h

theorem isItem_of_isOperand (h : e.isOperand = true) : e.isItem = true := by
  cases e <;> first | rfl | exact Bool.noConfusion h

theorem flatten_texts_items (e : Expression) : (texts e.items).flatten = e.text := by
  cases e <;> simp [items, texts, text]

theorem groupCounts_items (e : Expression) : groupCounts e.items = e.groupCount := by
  cases e <;> simp [items, groupCounts, groupCount]

theorem groupNamesAll_items (opened : Nat) (e : Expression) :
    groupNamesAll opened e.items = e.groupNames opened := by
  cases e <;> simp [items, groupNamesAll, groupNames]

theorem targetsAll_items (e : Expression) : targetsAll e.items = e.targets := by
  cases e <;> simp [items, targetsAll, targets]

theorem intercalate_texts_branches (e : Expression) :
    ['|'].intercalate (texts e.branches) = e.text := by
  cases e <;> simp [branches, texts, text]

theorem groupCounts_branches (e : Expression) : groupCounts e.branches = e.groupCount := by
  cases e <;> simp [branches, groupCounts, groupCount]

theorem groupNamesAll_branches (opened : Nat) (e : Expression) :
    groupNamesAll opened e.branches = e.groupNames opened := by
  cases e <;> simp [branches, groupNamesAll, groupNames]

theorem targetsAll_branches (e : Expression) : targetsAll e.branches = e.targets := by
  cases e <;> simp [branches, targetsAll, targets]

theorem groupCounts_append (es fs : List Expression) :
    groupCounts (es ++ fs) = groupCounts es + groupCounts fs := by
  induction es with
  | nil => simp [groupCounts]
  | cons e rest ih => rw [List.cons_append, groupCounts, groupCounts, ih, Nat.add_assoc]

theorem groupNamesAll_append (opened : Nat) (es fs : List Expression) :
    groupNamesAll opened (es ++ fs) =
      groupNamesAll opened es ++ groupNamesAll (opened + groupCounts es) fs := by
  induction es generalizing opened with
  | nil => simp [groupNamesAll, groupCounts]
  | cons e rest ih =>
    rw [List.cons_append, groupNamesAll, groupNamesAll, ih, List.append_assoc, groupCounts,
      Nat.add_assoc]

theorem targetsAll_append (es fs : List Expression) :
    targetsAll (es ++ fs) = targetsAll es ++ targetsAll fs := by
  induction es with
  | nil => rfl
  | cons e rest ih => rw [List.cons_append, targetsAll, targetsAll, ih, List.append_assoc]

theorem shapes_append (opened : Nat) (es fs : List Expression) :
    shapes opened (es ++ fs) = shapes opened es ++ shapes (opened + groupCounts es) fs := by
  induction es generalizing opened with
  | nil => simp [shapes, groupCounts]
  | cons e rest ih =>
    rw [List.cons_append, shapes, shapes, ih, List.cons_append, groupCounts, Nat.add_assoc]

theorem length_shapes (opened : Nat) (es : List Expression) :
    (shapes opened es).length = es.length := by
  induction es generalizing opened with
  | nil => rfl
  | cons e rest ih => rw [shapes, List.length_cons, ih, List.length_cons]

theorem mem_targetsAll {es : List Expression} {target : Target} :
    target ∈ targetsAll es ↔ ∃ e ∈ es, target ∈ e.targets := by
  induction es with
  | nil => simp [targetsAll]
  | cons e rest ih => simp [targetsAll, ih]

/-- Every target in a printable expression can be printed. -/
theorem IsPrintable.targets (h : e.IsPrintable) : ∀ target ∈ e.targets, target.IsPrintable := by
  induction h with
  | empty => exact fun _ hmem => absurd hmem List.not_mem_nil
  | literal => exact fun _ hmem => absurd hmem List.not_mem_nil
  | shorthand => exact fun _ hmem => absurd hmem List.not_mem_nil
  | dot => exact fun _ hmem => absurd hmem List.not_mem_nil
  | anchor => exact fun _ hmem => absurd hmem List.not_mem_nil
  | backreference htarget =>
    -- only a reference and a condition have targets themselves
    intro target hmem
    obtain rfl := List.mem_singleton.mp hmem
    exact htarget
  | recursion => exact fun _ hmem => absurd hmem List.not_mem_nil
  | group _ _ ih => exact ih
  | lookaround _ ih => exact ih
  | quantified _ _ _ ih => exact ih
  | concat _ _ _ ih =>
    intro target hmem
    obtain ⟨item, hitem, htarget⟩ := mem_targetsAll.mp hmem
    exact ih item hitem target htarget
  | alternation _ _ _ ih =>
    intro target hmem
    obtain ⟨branch, hbranch, htarget⟩ := mem_targetsAll.mp hmem
    exact ih branch hbranch target htarget
  | conditional hcondition _ _ _ _ ih =>
    intro target hmem
    rcases List.mem_cons.mp hmem with rfl | hmem
    · exact hcondition
    · obtain ⟨branch, hbranch, htarget⟩ := mem_targetsAll.mp hmem
      exact ih branch hbranch target htarget

end Expression

end RegexInsight
