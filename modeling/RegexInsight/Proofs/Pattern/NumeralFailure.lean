import Mathlib
import RegexInsight.Proofs.Pattern.NormalForm

/-! # Failures that are no faults

    A text that is no pattern is met with a fault, save where a number has
    to be read or written that is out of range.  There are three such
    places: a quantifier bound with too many digits, a relative reference
    whose offset or whose target has too many digits, and at the end of the
    pattern a reference that looks like a number and is none.  No other
    reader fails in this way, whatever characters it meets. -/

namespace RegexInsight

/-! ## Section 1: Clean readers -/

/-- A reader that does not fail over a number. -/
def Read.Clean {α : Type} (x : Read α) : Prop :=
  ∀ e, x ≠ .error (.numeral e)

namespace Read

variable {α β : Type}

@[simp] theorem clean_ok (a : α) : Clean (.ok a : Read α) := nofun

@[simp] theorem clean_pure (a : α) : Clean (pure a : Read α) := nofun

@[simp] theorem clean_fail (fault : Fault) (position : Nat) :
    Clean (Read.fail fault position : Read α) := nofun

theorem clean_bind {x : Read α} {f : α → Read β} :
    (x >>= f).Clean ↔ x.Clean ∧ ∀ a, x = .ok a → (f a).Clean := by
  cases x with
  | ok a => simp [bind, Except.bind, Clean]
  | error e => simp [bind, Except.bind, Clean]

theorem Clean.bind {x : Read α} {f : α → Read β} (hx : x.Clean)
    (hf : ∀ a, x = .ok a → (f a).Clean) : (x >>= f).Clean :=
  clean_bind.mpr ⟨hx, hf⟩

theorem clean_ite {p : Prop} [Decidable p] {x y : Read α} (hx : p → x.Clean)
    (hy : ¬ p → y.Clean) : (if p then x else y).Clean := by
  split
  next hp => exact hx hp
  next hp => exact hy hp

/-! ## Section 2: Numbers -/

theorem number_eq_ok_iff {text : Text} {n : Nat} :
    number text = .ok n ↔ Numeral.read text = .ok n := by
  unfold number
  cases Numeral.read text <;> simp

theorem clean_number {text : Text} :
    (number text).Clean ↔
      text ≠ [] ∧ text.all isDecimal = true ∧ text.length ≤ Numeral.maxDigits := by
  have hread : (number text).Clean ↔ ∃ n, number text = .ok n := by
    unfold number
    cases Numeral.read text <;> simp [Clean]
  simp only [hread, number_eq_ok_iff, Numeral.read_eq_ok_iff]
  constructor
  · intro hgiven
    obtain ⟨n, hne, hall, hlength, -⟩ := hgiven
    exact ⟨hne, hall, hlength⟩
  · intro hgiven
    obtain ⟨hne, hall, hlength⟩ := hgiven
    exact ⟨_, hne, hall, hlength, rfl⟩

theorem clean_numeralOf {n : Nat} :
    (numeralOf n).Clean ↔ (Nat.toDigits 10 n).length ≤ Numeral.maxDigits := by
  have hwrite : (numeralOf n).Clean ↔ ∃ text, Numeral.write n = .ok text := by
    unfold numeralOf
    cases Numeral.write n <;> simp [Clean]
  simp only [hwrite, Numeral.write_eq_ok_iff, exists_eq_left]

end Read

namespace Bounds

/-- The digits of written bounds are decimal, and without a comma there are
    none for an upper bound. -/
theorem written?_spec {cur after : Cursor} {low high : Text} {comma : Bool}
    (h : written? cur = some ((low, comma, high), after)) :
    low.all isDecimal = true ∧ high.all isDecimal = true ∧ (comma = false → high = []) := by
  unfold written? at h
  split at h
  next rest hrest =>
    obtain ⟨low', tail, htail, hlow, hstop, hrun⟩ := (cur.advance 1).run_spec isDecimal
    rw [hrun] at h
    dsimp only at h
    obtain ⟨-, hsome⟩ := Option.ite_none_right_eq_some.mp h
    obtain ⟨hgiven, -⟩ := Prod.mk.inj (Option.some.inj hsome)
    obtain ⟨rfl, rest⟩ := Prod.mk.inj hgiven
    obtain ⟨rfl, rfl⟩ := Prod.mk.inj rest
    refine ⟨List.all_eq_true.mpr hlow, List.all_takeWhile, fun hcomma => ?_⟩
    -- the run of lower digits ended where the upper digits would begin
    rw [hcomma]
    have hafter : ((cur.advance 1).advance low'.length).rest = tail := by
      rw [Cursor.advance_rest, htail, List.drop_left]
    simp only [Bool.false_eq_true, if_false, Cursor.run, hafter]
    cases tail with
    | nil => rfl
    | cons c tail => simp [hstop c rfl]
  next => simp at h

/-- Decimal digits are a number unless there are too many of them. -/
theorem clean_number_of_all {digits : Text} (hsome : digits ≠ [])
    (hall : digits.all isDecimal = true) :
    (Read.number digits).Clean ↔ digits.length ≤ Numeral.maxDigits := by
  rw [Read.clean_number]
  exact ⟨fun h => h.2.2, fun h => ⟨hsome, hall, h⟩⟩

theorem clean_ofWritten {low high : Text} {comma : Bool} (hlow : low.all isDecimal = true)
    (hhigh : high.all isDecimal = true) (hcomma : comma = false → high = []) :
    (ofWritten low comma high).Clean ↔
      low.length ≤ Numeral.maxDigits ∧ high.length ≤ Numeral.maxDigits := by
  have hupper : ∀ least : Nat, (if !comma then return ⟨least, some least⟩
      else if high.isEmpty then return ⟨least, none⟩
      else return ⟨least, some (← Read.number high)⟩ : Read Bounds).Clean ↔
      high.length ≤ Numeral.maxDigits := by
    intro least
    cases comma with
    | false => simp [hcomma rfl]
    | true =>
      cases high with
      | nil => simp
      | cons c high =>
        have hnumber := clean_number_of_all (List.cons_ne_nil c high) hhigh
        simp only [Bool.not_true, Bool.false_eq_true, if_false, List.isEmpty_cons, Read.clean_bind,
          hnumber, Read.clean_pure, implies_true, and_true]
  unfold ofWritten
  cases low with
  | nil =>
    simp only [List.isEmpty_nil, if_true, pure_bind]
    exact (hupper 0).trans (iff_and_self.mpr fun _ => Nat.zero_le _)
  | cons c low =>
    simp only [List.isEmpty_cons, Bool.false_eq_true, if_false]
    rw [Read.clean_bind, clean_number_of_all (List.cons_ne_nil c low) hlow]
    refine and_congr_right fun hlength => ⟨fun h => ?_, fun h least _ => (hupper least).mpr h⟩
    -- the lower bound is read, so that the upper one is looked at
    have hok := Numeral.read_eq_ok_iff.mpr ⟨List.cons_ne_nil c low, hlow, hlength, rfl⟩
    exact (hupper _).mp (h _ (Read.number_eq_ok_iff.mpr hok))

/-- Reading bounds fails over a number exactly when one of them is too
    long. -/
theorem clean_read? {cur : Cursor} :
    (read? cur).Clean ↔ ∀ low comma high after, written? cur = some ((low, comma, high), after) →
      low.length ≤ Numeral.maxDigits ∧ high.length ≤ Numeral.maxDigits := by
  -- without a brace there is nothing to read
  have hnone : written? cur = none → (read? cur).Clean := by
    intro hwritten
    unfold read?
    split <;> simp [readBraces, hwritten]
  cases hwritten : written? cur with
  | none => exact iff_of_true (hnone hwritten) (by simp)
  | some found =>
    obtain ⟨⟨low, comma, high⟩, after⟩ := found
    obtain ⟨hlow, hhigh, hcomma⟩ := written?_spec hwritten
    have hbraces : read? cur = readBraces cur := by
      unfold read?
      split
      next hrest => simp [written?, hrest] at hwritten
      next hrest => simp [written?, hrest] at hwritten
      next hrest => simp [written?, hrest] at hwritten
      next => rfl
    have hclean : (readBraces cur).Clean ↔
        low.length ≤ Numeral.maxDigits ∧ high.length ≤ Numeral.maxDigits := by
      simp only [readBraces, hwritten]
      rw [Read.clean_bind, clean_ofWritten hlow hhigh hcomma]
      exact and_iff_left fun _ _ => Read.clean_pure _
    rw [hbraces, hclean]
    constructor
    · rintro hlengths low' comma' high' after' ⟨⟩
      exact hlengths
    · intro h
      exact h low comma high after rfl

end Bounds

/-! ## Section 3: Relative references -/

/-- The sign of a relative reference. -/
def signChar (backward : Bool) : Char :=
  if backward then '-' else '+'

/-- The group that an offset means when `groups` groups have been opened. -/
def groupAt (groups : Nat) (backward : Bool) (offset : Nat) : Nat :=
  if backward && offset > 0 then groups + 1 - offset else groups + offset

/-- An offset with too many digits, or to a group whose number has too
    many. -/
def IsOverlongOffset (groups : Nat) (backward : Bool) (digits : Text) : Prop :=
  Numeral.maxDigits < digits.length ∨
    Numeral.maxDigits < (Nat.toDigits 10 (groupAt groups backward (Numeral.value digits))).length

namespace Escape

theorem signedDigits?_eq_some_iff {target digits : Text} {backward : Bool} :
    signedDigits? target = some (backward, digits) ↔
      target = signChar backward :: digits ∧ digits ≠ [] ∧ digits.all isDecimal = true := by
  cases target with
  | nil => simp [signedDigits?]
  | cons c rest =>
    simp only [signedDigits?, Option.ite_none_right_eq_some, Bool.and_eq_true, Bool.or_eq_true,
      beq_iff_eq, Bool.not_eq_true', List.isEmpty_eq_false_iff, Option.some.injEq, Prod.mk.injEq,
      List.cons.injEq]
    constructor
    · intro hgiven
      obtain ⟨⟨⟨hsign, hsome⟩, hall⟩, rfl, rfl⟩ := hgiven
      refine ⟨⟨?_, rfl⟩, hsome, hall⟩
      rcases hsign with rfl | rfl <;> rfl
    · intro hgiven
      obtain ⟨⟨rfl, rfl⟩, hsome, hall⟩ := hgiven
      cases backward <;> simp [signChar, hsome, hall]

/-- Making a target absolute fails over a number exactly when it is a
    signed offset that is too long. -/
theorem clean_absoluteReference {start groups : Nat} {target : Text} :
    (absoluteReference start groups target).Clean ↔
      ∀ backward digits, signedDigits? target = some (backward, digits) →
        ¬ IsOverlongOffset groups backward digits := by
  unfold absoluteReference
  split
  next backward digits hsigned =>
    obtain ⟨-, hsome, hall⟩ := signedDigits?_eq_some_iff.mp hsigned
    have hoverlong : ¬ IsOverlongOffset groups backward digits ↔
        digits.length ≤ Numeral.maxDigits ∧ (Nat.toDigits 10
          (groupAt groups backward (Numeral.value digits))).length ≤ Numeral.maxDigits := by
      rw [IsOverlongOffset, not_or, Nat.not_lt, Nat.not_lt]
    rw [Read.clean_bind, Bounds.clean_number_of_all hsome hall]
    constructor
    · intro hgiven backward' digits' hsigned'
      obtain ⟨hlength, hrest⟩ := hgiven
      rw [hsigned] at hsigned'
      obtain ⟨rfl, rfl⟩ := Prod.mk.inj (Option.some.inj hsigned')
      refine hoverlong.mpr ⟨hlength, ?_⟩
      -- a group without number is turned down before it is written
      have hok := Numeral.read_eq_ok_iff.mpr ⟨hsome, hall, hlength, rfl⟩
      have hgroup := hrest _ (Read.number_eq_ok_iff.mpr hok)
      by_cases hzero : groupAt groups backward (Numeral.value digits) = 0
      · rw [hzero]
        decide
      · simp only [groupAt] at hzero ⊢
        simp only [beq_iff_eq, hzero, if_false] at hgroup
        exact Read.clean_numeralOf.mp hgroup
    · intro h
      obtain ⟨hlength, hgroup⟩ := hoverlong.mp (h backward digits hsigned)
      refine ⟨hlength, fun offset hoffset => ?_⟩
      obtain ⟨-, -, -, rfl⟩ := Numeral.read_eq_ok_iff.mp (Read.number_eq_ok_iff.mp hoffset)
      exact Read.clean_ite (fun _ => Read.clean_fail _ _) fun _ =>
        Read.clean_numeralOf.mpr hgroup
  next hunsigned =>
    refine iff_of_true ?_ fun backward digits hsigned => ?_
    · exact Read.clean_ite (fun _ => Read.clean_ok _) fun _ => Read.clean_fail _ _
    · simp [hunsigned] at hsigned

end Escape

/-! ## Section 4: Readers that are always clean -/

theorem Cursor.clean_readName (cur : Cursor) (terminator : Char) :
    (cur.readName terminator).Clean := by
  unfold readName
  split
  next => exact Read.clean_fail _ _
  next => exact Read.clean_ite (fun _ => Read.clean_ok _) fun _ => Read.clean_fail _ _

namespace Escape

variable {start : Nat} {cur : Cursor}

theorem clean_readHex (letter : Char) (width : Nat) :
    (readHex start letter width cur).Clean := by
  unfold readHex
  split
  next => exact Read.clean_fail _ _
  next =>
    refine Read.clean_ite (fun _ => Read.clean_fail _ _) fun _ => ?_
    exact Read.clean_ite (fun _ => Read.clean_fail _ _) fun _ => Read.clean_ok _

theorem clean_octalCode (digits : Text) : (octalCode start digits).Clean :=
  Read.clean_ite (fun _ => Read.clean_fail _ _) fun _ => Read.clean_ok _

theorem clean_readOctal (first : Char) : (readOctal start first cur).Clean :=
  (clean_octalCode _).bind fun _ _ => Read.clean_pure _

theorem clean_readProperty (negated : Bool) : (readProperty start negated cur).Clean := by
  have hname : (propertyName start cur).Clean := by
    unfold propertyName
    split
    next => exact Read.clean_fail _ _
    next =>
      split
      next => split <;> simp
      next => exact Read.clean_ite (fun _ => Read.clean_ok _) fun _ => Read.clean_fail _ _
  refine hname.bind fun found _ => ?_
  exact Read.clean_ite (fun _ => Read.clean_fail _ _) fun _ => Read.clean_pure _

theorem clean_readNumbered (modes : Modes) (first : Char) :
    (readNumbered modes start first cur).Clean := by
  refine Read.clean_ite (fun _ => ?_) fun _ => Read.clean_ok _
  exact (clean_octalCode _).bind fun _ _ => Read.clean_pure _

theorem clean_readNamed : (readNamed start cur).Clean := by
  unfold readNamed
  split
  next => exact Read.clean_fail _ _
  next => exact (Cursor.clean_readName _ _).bind fun _ _ => Read.clean_pure _

end Escape

namespace Bracket

theorem clean_readAtom (cur : Cursor) : (readAtom cur).Clean := by
  rcases readAtom_cases cur with hfail | ⟨c, rest, -, -, hplain⟩ | ⟨c, rest, hrest⟩
  · rw [hfail]
    exact Read.clean_fail _ _
  · rw [hplain]
    exact Read.clean_ok _
  obtain ⟨f, hform, hread⟩ := exists_form c
  rw [hread cur rest hrest]
  cases hform with
  | pair _ => exact Read.clean_ok _
  | property _ => exact (Escape.clean_readProperty _).bind fun _ _ => Read.clean_pure _
  | hexadecimal _ => exact (Escape.clean_readHex _ _).bind fun _ _ => Read.clean_pure _
  | octal => exact (Escape.clean_readOctal _).bind fun _ _ => Read.clean_pure _
  | unknown => exact Read.clean_fail _ _

theorem clean_readItem (cur : Cursor) : (readItem cur).Clean := by
  refine (clean_readAtom cur).bind fun ⟨low, afterLow⟩ _ => ?_
  dsimp only
  split
  next =>
    refine Read.clean_ite (fun _ => Read.clean_pure _) fun _ => ?_
    refine (clean_readAtom _).bind fun ⟨high, afterHigh⟩ _ => ?_
    dsimp only
    split
    next => exact Read.clean_fail _ _
    next => exact Read.clean_ite (fun _ => Read.clean_fail _ _) fun _ => Read.clean_pure _
  next => exact Read.clean_pure _

theorem clean_readMembers (start fuel : Nat) (isFirst : Bool) (members : Members) (cur : Cursor) :
    (readMembers start fuel isFirst members cur).Clean := by
  induction fuel generalizing isFirst members cur with
  | zero => exact Read.clean_fail _ _
  | succ fuel ih =>
    unfold readMembers
    split
    next => exact Read.clean_fail _ _
    next =>
      refine Read.clean_ite (fun _ => Read.clean_ok _) fun _ => ?_
      split
      next =>
        refine Read.Clean.bind ?_ fun _ _ => ih _ _ _
        unfold readPosix
        dsimp only
        split <;> simp
      next => exact (clean_readItem cur).bind fun _ _ => ih _ _ _

theorem clean_read (modes : Modes) (cur : Cursor) : (read modes cur).Clean :=
  (clean_readMembers _ _ _ _ _).bind fun _ _ => Read.clean_pure _

end Bracket

theorem Frame.clean_close (f : Frame) (count stop : Nat) : (f.close count stop).Clean := by
  unfold Frame.close
  dsimp only
  split
  next => exact Read.clean_ite (fun _ => Read.clean_fail _ _) fun _ => Read.clean_ok _
  next => exact Read.clean_ok _
  next => exact Read.clean_ok _
  next => exact Read.clean_ok _

/-! ## Section 5: Escapes -/

/-- A relative reference after `\g`: between brackets, quotes or braces, or
    without them when it points backwards. -/
inductive GeneralOffset : Bool → Text → Text → Prop where
  | angle {backward : Bool} {digits rest : Text} :
      GeneralOffset backward digits ('<' :: signChar backward :: (digits ++ '>' :: rest))
  | quote {backward : Bool} {digits rest : Text} :
      GeneralOffset backward digits ('\'' :: signChar backward :: (digits ++ '\'' :: rest))
  | brace {backward : Bool} {digits rest : Text} :
      GeneralOffset backward digits ('{' :: signChar backward :: (digits ++ '}' :: rest))
  | bare {digits rest : Text} (hrest : ∀ c ∈ rest.head?, isDecimal c = false) :
      GeneralOffset true digits ('-' :: (digits ++ rest))

/-- A relative reference at the start of a text, as an escape or as a
    group. -/
inductive ShowsOffset : Bool → Text → Text → Prop where
  | escape {backward : Bool} {digits rest : Text} (h : GeneralOffset backward digits rest) :
      ShowsOffset backward digits ('\\' :: 'g' :: rest)
  | group {backward : Bool} {digits rest : Text} :
      ShowsOffset backward digits ('(' :: '?' :: signChar backward :: (digits ++ ')' :: rest))

namespace Escape

variable {start groups : Nat} {cur : Cursor}

/-- A target up to a terminator, which is neither a digit nor a sign. -/
theorem clean_upTo? {terminator : Char} (hdecimal : isDecimal terminator = false)
    (hsign : terminator ∉ ['+', '-']) :
    (∀ target after, cur.upTo? terminator = some (target, after) →
      (absoluteReference start groups target).Clean) ↔
    ∀ backward digits rest, digits ≠ [] → digits.all isDecimal = true →
      cur.rest = signChar backward :: (digits ++ terminator :: rest) →
      ¬ IsOverlongOffset groups backward digits := by
  constructor
  · intro h backward digits rest hsome hall hrest
    -- the terminator cannot occur before its place
    have hnot : terminator ∉ signChar backward :: digits := by
      rw [List.mem_cons, not_or]
      constructor
      · rintro rfl
        cases backward <;> simp [signChar] at hsign
      · intro hmem
        rw [List.all_eq_true.mp hall terminator hmem] at hdecimal
        exact Bool.noConfusion hdecimal
    have hfound := Cursor.upTo?_eq_some_iff.mpr ⟨hnot, ⟨rest, hrest⟩, rfl⟩
    exact clean_absoluteReference.mp (h _ _ hfound) backward digits
      (signedDigits?_eq_some_iff.mpr ⟨rfl, hsome, hall⟩)
  · intro h target after hfound
    refine clean_absoluteReference.mpr fun backward digits hsigned => ?_
    obtain ⟨rfl, hsome, hall⟩ := signedDigits?_eq_some_iff.mp hsigned
    obtain ⟨-, ⟨rest, hrest⟩, -⟩ := Cursor.upTo?_eq_some_iff.mp hfound
    exact h backward digits rest hsome hall hrest

theorem clean_backreference {target : Text} {after : Cursor} :
    (backreference start groups target after).Clean ↔
      (absoluteReference start groups target).Clean := by
  unfold backreference
  rw [Read.clean_bind]
  exact and_iff_left fun _ _ => Read.clean_pure _

/-- Where a target is looked up, the number in it is all that can fail in
    this way; without a closing there is none. -/
theorem clean_found {α : Type} {result : Read α} {found : Option (Text × Cursor)}
    (hnone : found = none → result.Clean)
    (hsome : ∀ target after, found = some (target, after) →
      (result.Clean ↔ (absoluteReference start groups target).Clean)) :
    result.Clean ↔ ∀ target after, found = some (target, after) →
      (absoluteReference start groups target).Clean := by
  cases found with
  | none =>
    refine iff_of_true (hnone rfl) fun target after hfound => ?_
    cases hfound
  | some pair =>
    obtain ⟨target, after⟩ := pair
    refine (hsome target after rfl).trans ⟨?_, fun h => h target after rfl⟩
    intro h target' after' hfound
    obtain ⟨rfl, -⟩ := Prod.mk.inj (Option.some.inj hfound)
    exact h

theorem clean_call {terminator : Char} :
    (readGeneral.call start groups cur terminator).Clean ↔
      ∀ target after, (cur.advance 1).upTo? terminator = some (target, after) →
        (absoluteReference start groups target).Clean := by
  refine clean_found (fun hnone => ?_) fun target after hfound => ?_
  · simp only [readGeneral.call, hnone]
    exact Read.clean_fail _ _
  · simp only [readGeneral.call, hfound]
    split
    next hwhole =>
      -- the whole pattern is called by an unsigned zero
      obtain rfl := eq_of_beq hwhole
      exact iff_of_true (Read.clean_ok _) (clean_absoluteReference.mpr nofun)
    next =>
      rw [Read.clean_bind]
      exact and_iff_left fun _ _ => Read.clean_pure _

/-- An unsigned target is never made absolute by counting. -/
theorem clean_unsigned {target : Text} (h : signedDigits? target = none) :
    (absoluteReference start groups target).Clean := by
  refine clean_absoluteReference.mpr fun backward digits hsigned => ?_
  simp [h] at hsigned

theorem signedDigits?_eq_none {digits : Text} (h : digits.all isDecimal = true) :
    signedDigits? digits = none := by
  cases hsigned : signedDigits? digits with
  | none => rfl
  | some found =>
    obtain ⟨backward, rest⟩ := found
    obtain ⟨rfl, -, -⟩ := signedDigits?_eq_some_iff.mp hsigned
    cases backward <;> exact absurd (List.all_eq_true.mp h _ List.mem_cons_self) (by decide)

/-- A reference by its digits, which a minus makes relative. -/
theorem clean_bare (hbare : cur.rest.head?.bind closing? = none) :
    (readGeneral start groups cur).Clean ↔
      ∀ digits rest, digits ≠ [] → digits.all isDecimal = true → cur.rest = '-' :: (digits ++ rest) →
        (∀ c ∈ rest.head?, isDecimal c = false) → ¬ IsOverlongOffset groups true digits := by
  rw [readGeneral_bare hbare]
  dsimp only
  by_cases hminus : cur.rest.head? = some '-'
  · obtain ⟨tail, htail⟩ := List.head?_eq_some_iff.mp hminus
    have hnext : (cur.advance 1).rest = tail := by rw [Cursor.advance_rest, htail]; rfl
    obtain ⟨digits, rest, hdigits, hall, hstop, hrun⟩ := (cur.advance 1).run_spec isDecimal
    rw [hnext] at hdigits
    simp only [hminus, beq_self_eq_true, if_true, List.length_singleton, hrun]
    constructor
    · intro h digits' rest' hsome hall' hrest' hstop'
      -- the digits are those that the run reads
      have hsame : digits' = digits := by
        rw [htail] at hrest'
        have htext := (List.cons.inj hrest').2
        have hrun' := Cursor.run_of_append (hnext.trans htext) (List.all_eq_true.mp hall') hstop'
        exact (Prod.mk.inj (hrun'.symm.trans hrun)).1
      subst hsame
      rw [if_neg (by simpa using hsome), clean_backreference] at h
      exact clean_absoluteReference.mp h true digits'
        (signedDigits?_eq_some_iff.mpr ⟨rfl, hsome, hall'⟩)
    · intro h
      refine Read.clean_ite (fun _ => Read.clean_fail _ _) fun hsome => ?_
      refine clean_backreference.mpr (clean_absoluteReference.mpr fun backward digits' hsigned => ?_)
      obtain ⟨htarget, hsome', hall'⟩ := signedDigits?_eq_some_iff.mp hsigned
      obtain ⟨hsign, rfl⟩ := List.cons.inj htarget
      cases backward with
      | false => exact absurd hsign (by decide)
      | true => exact h digits rest hsome' hall' (by rw [htail, hdigits]) hstop
  · refine iff_of_true ?_ fun digits rest _ _ hrest' => absurd (by rw [hrest']; rfl) hminus
    have hplain : (cur.rest.head? == some '-') = false := beq_eq_false_iff_ne.mpr hminus
    simp only [hplain, Bool.false_eq_true, if_false]
    refine Read.clean_ite (fun _ => Read.clean_fail _ _) fun _ => ?_
    exact clean_backreference.mpr (clean_unsigned (signedDigits?_eq_none List.all_takeWhile))

/-- Between an opening and what closes it a target is looked up, whether it
    is called or referred to. -/
theorem clean_opened {opening terminator : Char} {tail : Text} (htail : cur.rest = opening :: tail)
    (hopening : closing? opening = some terminator) :
    (readGeneral start groups cur).Clean ↔
      ∀ target after, (cur.advance 1).upTo? terminator = some (target, after) →
        (absoluteReference start groups target).Clean := by
  by_cases hbrace : opening = '\x7b'
  · subst hbrace
    obtain rfl := Option.some.inj hopening
    refine clean_found (fun hnone => ?_) fun target after hfound => ?_
    · simp only [readGeneral, htail, hnone]
      exact Read.clean_fail _ _
    · simp only [readGeneral, htail, hfound]
      exact clean_backreference
  · rw [readGeneral_call htail hopening hbrace, clean_call]

theorem generalOffset_iff {opening terminator : Char} (h : closing? opening = some terminator)
    {backward : Bool} {digits tail : Text} :
    GeneralOffset backward digits (opening :: tail) ↔
      ∃ rest, tail = signChar backward :: (digits ++ terminator :: rest) := by
  constructor
  · intro hshows
    rcases closing?_cases h with ⟨rfl, rfl⟩ | ⟨rfl, rfl⟩ | ⟨rfl, rfl⟩ <;> cases hshows <;>
      exact ⟨_, rfl⟩
  · intro hgiven
    obtain ⟨rest, rfl⟩ := hgiven
    rcases closing?_cases h with ⟨rfl, rfl⟩ | ⟨rfl, rfl⟩ | ⟨rfl, rfl⟩
    · exact .angle
    · exact .quote
    · exact .brace

/-- The three delimited forms differ in their terminator alone. -/
theorem clean_delimited {opening terminator : Char} {tail : Text}
    (htail : cur.rest = opening :: tail) (hopening : closing? opening = some terminator) :
    (readGeneral start groups cur).Clean ↔ ∀ backward digits, digits ≠ [] →
      digits.all isDecimal = true → GeneralOffset backward digits cur.rest →
      ¬ IsOverlongOffset groups backward digits := by
  have hterminator : isDecimal terminator = false ∧ terminator ∉ ['+', '-'] := by
    rcases closing?_cases hopening with ⟨-, rfl⟩ | ⟨-, rfl⟩ | ⟨-, rfl⟩ <;> decide
  rw [clean_opened htail hopening, clean_upTo? hterminator.1 hterminator.2, htail]
  have hnext : (cur.advance 1).rest = tail := by rw [Cursor.advance_rest, htail]; rfl
  constructor
  · intro h backward digits hsome hall hshows
    obtain ⟨rest, hrest⟩ := (generalOffset_iff hopening).mp hshows
    exact h backward digits rest hsome hall (hnext.trans hrest)
  · intro h backward digits rest hsome hall hrest
    exact h backward digits hsome hall
      ((generalOffset_iff hopening).mpr ⟨rest, hnext.symm.trans hrest⟩)

/-- What follows `\g` fails over a number exactly when it is a relative
    reference that is too long. -/
theorem clean_readGeneral :
    (readGeneral start groups cur).Clean ↔ ∀ backward digits, digits ≠ [] →
      digits.all isDecimal = true → GeneralOffset backward digits cur.rest →
      ¬ IsOverlongOffset groups backward digits := by
  cases hclosing : cur.rest.head?.bind closing? with
  | some terminator =>
    obtain ⟨opening, hhead, hopening⟩ := Option.bind_eq_some_iff.mp hclosing
    obtain ⟨tail, htail⟩ := List.head?_eq_some_iff.mp hhead
    exact clean_delimited htail hopening
  | none =>
    -- without a delimiter the digits end where other characters begin
    rw [clean_bare hclosing]
    constructor
    · intro h backward digits hsome hall hshows
      generalize hrest : cur.rest = text at hshows
      rw [hrest] at hclosing
      cases hshows with
      | angle => cases hclosing
      | quote => cases hclosing
      | brace => cases hclosing
      | bare hstop => exact h digits _ hsome hall hrest hstop
    · intro h digits rest hsome hall hrest hstop
      exact h true digits hsome hall (hrest ▸ .bare hstop)

/-- An escape fails over a number exactly when it is a relative reference
    that is too long. -/
theorem clean_read {modes : Modes} {tail : Text} (hrest : cur.rest = '\\' :: tail) :
    (read modes groups cur).Clean ↔ ∀ backward digits, digits ≠ [] →
      digits.all isDecimal = true → ShowsOffset backward digits cur.rest →
      ¬ IsOverlongOffset groups backward digits := by
  by_cases hg : tail.head? = some 'g'
  · obtain ⟨rest, rfl⟩ := List.head?_eq_some_iff.mp hg
    have hnext : (cur.advance 2).rest = rest := by rw [Cursor.advance_rest, hrest]; rfl
    rw [read_eq_readGeneral hrest, clean_readGeneral, hnext, hrest]
    refine forall_congr' fun backward => forall_congr' fun digits => ?_
    refine forall_congr' fun _ => forall_congr' fun _ => imp_congr_left ⟨.escape, ?_⟩
    rintro ⟨h⟩
    exact h
  · refine iff_of_true ?_ fun backward digits _ _ hshows => ?_
    · cases tail with
      | nil =>
        simp only [read, hrest, List.drop_succ_cons, List.drop_nil]
        exact Read.clean_fail _ _
      | cons c tail =>
        -- no other escape reads a number without a bound on its digits
        obtain ⟨f, hform, hread⟩ := exists_form c
        rw [hread modes groups cur tail hrest]
        cases hform with
        | shorthand _ | anchor _ | literal _ | quoted => exact Read.clean_ok _
        | property _ => exact (clean_readProperty _).bind fun _ _ => Read.clean_pure _
        | hexadecimal _ => exact (clean_readHex _ _).bind fun _ _ => Read.clean_pure _
        | octal => exact (clean_readOctal _).bind fun _ _ => Read.clean_pure _
        | numbered _ => exact clean_readNumbered _ _
        | named => exact clean_readNamed
        | general => exact absurd rfl hg
        | unknown => exact Read.clean_fail _ _
    · rw [hrest] at hshows
      cases hshows
      exact absurd rfl hg

end Escape

namespace ParserState

/-! ## Section 6: Groups -/

variable {s : ParserState} {start : Nat} {cur : Cursor}

theorem isRecursionTarget_of_signed {target digits : Text} {backward : Bool}
    (h : Escape.signedDigits? target = some (backward, digits)) :
    isRecursionTarget target = true := by
  obtain ⟨rfl, hsome, hall⟩ := Escape.signedDigits?_eq_some_iff.mp h
  cases backward <;> simpa [isRecursionTarget, signChar, hall] using hsome

theorem clean_readRecursion :
    (s.readRecursion start cur).Clean ↔ ∀ target after, cur.upTo? ')' = some (target, after) →
      (Escape.absoluteReference start s.groups target).Clean := by
  refine Escape.clean_found (fun hnone => ?_) fun target after hfound => ?_
  · simp only [readRecursion, hnone]
    exact Read.clean_fail _ _
  · simp only [readRecursion, hfound]
    split
    next hwhole =>
      obtain rfl := eq_of_beq hwhole
      exact iff_of_true (Read.clean_ok _) (Escape.clean_unsigned rfl)
    next =>
      split
      next =>
        rw [Read.clean_bind]
        exact and_iff_left fun _ _ => Read.clean_pure _
      next hform =>
        -- a signed target would have the form of a recursion
        refine iff_of_true (Read.clean_fail _ _) ?_
        refine Escape.clean_absoluteReference.mpr fun backward digits hsigned => ?_
        exact absurd (isRecursionTarget_of_signed hsigned) hform

theorem clean_enterNamed (terminator : Char) (spelling : NameSpelling) :
    (s.enterNamed start cur terminator spelling).Clean := by
  refine (Cursor.clean_readName _ _).bind fun found _ => ?_
  exact Read.clean_ite (fun _ => Read.clean_fail _ _) fun _ => Read.clean_pure _

theorem clean_readNamedReference (label : Text → Label) :
    (s.readNamedReference start cur label).Clean :=
  (Cursor.clean_readName _ _).bind fun _ _ => Read.clean_pure _

theorem clean_enterConditional : (s.enterConditional start cur).Clean := by
  unfold enterConditional
  split
  next => exact Read.clean_fail _ _
  next => exact Read.clean_ite (fun _ => Read.clean_ok _) fun _ => Read.clean_fail _ _

theorem clean_readFlags : (s.readFlags start cur).Clean := by
  unfold readFlags
  dsimp only
  split <;> simp

/-- A group head fails over a number exactly when it calls a group by an
    offset that is too long. -/
theorem clean_readExtension :
    (s.readExtension start cur).Clean ↔ ∀ backward digits rest, digits ≠ [] →
      digits.all isDecimal = true → cur.rest = signChar backward :: (digits ++ ')' :: rest) →
      ¬ IsOverlongOffset s.groups backward digits := by
  -- a head that begins with a mark calls nothing by an offset
  have hunsigned : ShowsMark cur → ∀ backward digits rest, digits ≠ [] →
      digits.all isDecimal = true → cur.rest = signChar backward :: (digits ++ ')' :: rest) →
      ¬ IsOverlongOffset s.groups backward digits := by
    intro hmark backward digits rest _ _ hshows
    obtain ⟨c, hc, tail, htail⟩ := hmark
    rw [htail] at hshows
    obtain ⟨rfl, -⟩ := List.cons.inj hshows
    cases backward <;> exact absurd hc (by decide)
  -- a sign with a digit behind it is read as a call
  have hother : ∀ {c : Char} {tail : Text}, cur.rest = c :: tail → ¬ showsCall c tail = true →
      ∀ backward digits rest, digits ≠ [] → digits.all isDecimal = true →
        cur.rest = signChar backward :: (digits ++ ')' :: rest) →
        ¬ IsOverlongOffset s.groups backward digits := by
    intro c tail htail hcall backward digits rest hsome hall hshows
    rw [htail] at hshows
    obtain ⟨rfl, rfl⟩ := List.cons.inj hshows
    obtain ⟨d, ds, rfl⟩ := List.exists_cons_of_ne_nil hsome
    have hdigit := isDigitChar_of_isDecimal (List.all_eq_true.mp hall d List.mem_cons_self)
    cases backward <;> simp [showsCall, signChar, hdigit] at hcall
  have hreads := s.readsExtension start cur
  generalize s.readExtension start cur = result at hreads
  cases hreads with
  | ended hrest =>
    refine iff_of_true (Read.clean_fail _ _) fun backward digits rest _ _ hshows => ?_
    rw [hrest] at hshows
    cases hshows
  | unclosed hmark => exact iff_of_true (Read.clean_fail _ _) (hunsigned hmark)
  | comment hmark => exact iff_of_true (Read.clean_ok _) (hunsigned hmark)
  | opens hmark => exact iff_of_true (Read.clean_ok _) (hunsigned hmark)
  | names hmark => exact iff_of_true (clean_enterNamed _ _) (hunsigned hmark)
  | backreference hmark => exact iff_of_true (clean_readNamedReference _) (hunsigned hmark)
  | nameCall hmark => exact iff_of_true (clean_readNamedReference _) (hunsigned hmark)
  | conditional hmark => exact iff_of_true clean_enterConditional (hunsigned hmark)
  | call => rw [clean_readRecursion, Escape.clean_upTo? (by decide) (by decide)]
  | flags hrest hcall => exact iff_of_true clean_readFlags (hother hrest hcall)
  | unknown hrest hcall => exact iff_of_true (Read.clean_fail _ _) (hother hrest hcall)

theorem clean_readOpening {tail : Text} (hrest : s.cur.rest = '(' :: tail) :
    s.readOpening.Clean ↔ ∀ backward digits, digits ≠ [] → digits.all isDecimal = true →
      ShowsOffset backward digits s.cur.rest → ¬ IsOverlongOffset s.groups backward digits := by
  have hdrop : s.cur.rest.drop 1 = tail := by rw [hrest]; rfl
  unfold readOpening
  simp only [hdrop]
  rw [hrest]
  split
  next rest =>
    have hnext : (s.cur.advance 2).rest = rest := by rw [Cursor.advance_rest, hrest]; rfl
    rw [clean_readExtension, hnext]
    constructor
    · rintro h backward digits hsome hall ⟨⟩
      exact h backward digits _ hsome hall rfl
    · rintro h backward digits rest' hsome hall rfl
      exact h backward digits hsome hall .group
  next hnot =>
    refine iff_of_true (Read.clean_ok _) fun backward digits _ _ hshows => ?_
    cases hshows
    exact absurd rfl (hnot _)

/-! ## Section 7: One step -/

/-- A quantifier bound at the cursor has too many digits. -/
def MeetsOverlongBound (s : ParserState) : Prop :=
  ∃ low comma high after, Bounds.written? s.cur = some ((low, comma, high), after) ∧
    (Numeral.maxDigits < low.length ∨ Numeral.maxDigits < high.length)

/-- A relative reference at the cursor is too long. -/
def MeetsOverlongOffset (s : ParserState) : Prop :=
  ∃ backward digits, digits ≠ [] ∧ digits.all isDecimal = true ∧
    ShowsOffset backward digits s.cur.rest ∧ IsOverlongOffset s.groups backward digits

theorem clean_applyQuantifier (bounds : Bounds) : (s.applyQuantifier bounds cur).Clean := by
  by_cases hbounds : bounds.Ordered
  · rw [applyQuantifier_of_ordered hbounds]
    refine Read.clean_ite (fun _ => Read.clean_fail _ _) fun _ => ?_
    split
    next => exact Read.clean_fail _ _
    next => exact Read.clean_ite (fun _ => Read.clean_ok _) fun _ => Read.clean_fail _ _
  · simp only [Bounds.Ordered, not_forall, Nat.not_le] at hbounds
    obtain ⟨high, hmax, hlt⟩ := hbounds
    unfold applyQuantifier
    simp only [hmax, if_pos hlt]
    exact Read.clean_fail _ _

theorem not_meetsOverlongBound {c : Char} {tail : Text} (hrest : s.cur.rest = c :: tail)
    (hc : c ≠ '{') : ¬ s.MeetsOverlongBound := by
  intro hgiven
  obtain ⟨low, comma, high, after, hwritten, -⟩ := hgiven
  rw [Bounds.written?_eq_none hrest hc] at hwritten
  simp at hwritten

theorem not_meetsOverlongOffset {c : Char} {tail : Text} (hrest : s.cur.rest = c :: tail)
    (hopening : c ≠ '(') (hescape : c ≠ '\\') : ¬ s.MeetsOverlongOffset := by
  intro hgiven
  obtain ⟨backward, digits, -, -, hshows, -⟩ := hgiven
  rw [hrest] at hshows
  cases hshows with
  | escape => exact hescape rfl
  | group => exact hopening rfl

theorem clean_bounds : (Bounds.read? s.cur).Clean ↔ ¬ s.MeetsOverlongBound := by
  rw [Bounds.clean_read?]
  constructor
  · intro h hgiven
    obtain ⟨low, comma, high, after, hwritten, hlong⟩ := hgiven
    obtain ⟨hlow, hhigh⟩ := h low comma high after hwritten
    omega
  · intro h low comma high after hwritten
    by_contra hlong
    exact h ⟨low, comma, high, after, hwritten, by omega⟩

theorem not_meetsOverlongOffset_iff : ¬ s.MeetsOverlongOffset ↔ ∀ backward digits, digits ≠ [] →
    digits.all isDecimal = true → ShowsOffset backward digits s.cur.rest →
    ¬ IsOverlongOffset s.groups backward digits := by
  unfold MeetsOverlongOffset
  push Not
  rfl

theorem clean_readClosing : s.readClosing.Clean := by
  unfold readClosing
  split
  next => exact Read.clean_fail _ _
  next => exact (Frame.clean_close _ _ _).bind fun _ _ => Read.clean_pure _

theorem clean_readBracket : s.readBracket.Clean :=
  (Bracket.clean_read _ _).bind fun _ _ => Read.clean_pure _

/-- What is neither a group nor an escape can only fail over a bound. -/
theorem clean_readAt {c : Char} {tail : Text} (hrest : s.cur.rest = c :: tail)
    (hopening : c ≠ '(') (hescape : c ≠ '\\') : (s.readAt c).Clean ↔ ¬ s.MeetsOverlongBound := by
  have hreads := readsAt hrest
  generalize s.readAt c = result at hreads
  cases hreads with
  | opening => exact absurd rfl hopening
  | closing => exact iff_of_true clean_readClosing (not_meetsOverlongBound hrest (by decide))
  | bar => exact iff_of_true (Read.clean_ok _) (not_meetsOverlongBound hrest (by decide))
  | unread hread =>
    rw [← clean_bounds, hread]
    simp only [Read.Clean, ne_eq, Except.error.injEq]
  | quantifier _ hread =>
    rw [← clean_bounds, hread]
    exact iff_of_true (clean_applyQuantifier _) (Read.clean_ok _)
  | bracket => exact iff_of_true clean_readBracket (not_meetsOverlongBound hrest (by decide))
  | escape => exact absurd rfl hescape
  | single _ hread =>
    rw [← clean_bounds, hread]
    exact iff_of_true (Read.clean_ok _) (Read.clean_ok _)

/-- A step fails over a number exactly when it meets a bound or a relative
    reference that is too long. -/
theorem clean_step {c : Char} {tail : Text} (hrest : s.cur.rest = c :: tail) :
    (s.step c).Clean ↔ ¬ s.MeetsOverlongBound ∧ ¬ s.MeetsOverlongOffset := by
  by_cases hopening : c = '('
  · subst hopening
    have hskip := skipped?_eq_none hrest (by decide) (by decide)
    have hstep : s.step '(' = s.readOpening := step_of_not_skipped hskip
    rw [hstep, clean_readOpening hrest, not_meetsOverlongOffset_iff]
    exact (and_iff_right (not_meetsOverlongBound hrest (by decide))).symm
  by_cases hescape : c = '\\'
  · subst hescape
    have hskip := skipped?_eq_none hrest (by decide) (by decide)
    have hstep : s.step '\\' = s.readEscape := by
      rw [step_of_not_skipped hskip, readAt_escape hrest]
    have hread : s.readEscape.Clean ↔ (Escape.read s.frame.modes s.groups s.cur).Clean := by
      unfold readEscape
      rw [Read.clean_bind]
      exact and_iff_left fun _ _ => Read.clean_pure _
    rw [hstep, hread, Escape.clean_read hrest, not_meetsOverlongOffset_iff]
    exact (and_iff_right (not_meetsOverlongBound hrest (by decide))).symm
  -- what is skipped in verbose mode begins no bound either
  rw [and_iff_left (not_meetsOverlongOffset hrest hopening hescape)]
  cases hskip : s.skipped? with
  | none => rw [step_of_not_skipped hskip, clean_readAt hrest hopening hescape]
  | some after =>
    simp only [step, hskip]
    refine iff_of_true (Read.clean_ok _) (not_meetsOverlongBound hrest ?_)
    rintro rfl
    simp [skipped?_eq_none hrest (by decide) (by decide)] at hskip

/-! ## Section 8: Runs -/

theorem not_meets_of_rest_nil (hrest : s.cur.rest = []) :
    ¬ s.MeetsOverlongBound ∧ ¬ s.MeetsOverlongOffset := by
  constructor
  · intro hgiven
    obtain ⟨low, comma, high, after, hwritten, -⟩ := hgiven
    simp [Bounds.written?, hrest] at hwritten
  · intro hgiven
    obtain ⟨backward, digits, -, -, hshows, -⟩ := hgiven
    rw [hrest] at hshows
    nomatch hshows

/-- A run fails over a number exactly when it comes to a state that meets a
    bound or a relative reference that is too long. -/
theorem clean_run {fuel : Nat} (hfuel : s.cur.rest.length ≤ fuel) :
    (run fuel s).Clean ↔
      ∀ s', s.RunsTo s' → ¬ s'.MeetsOverlongBound ∧ ¬ s'.MeetsOverlongOffset := by
  constructor
  · intro h s' hruns
    obtain ⟨fuel', hfuel', hrun⟩ := run_eq_of_runsTo hruns hfuel
    rw [hrun] at h
    cases hrest : s'.cur.rest with
    | nil => exact not_meets_of_rest_nil hrest
    | cons c tail =>
      -- the run still has fuel for the step that fails
      rw [← clean_step hrest]
      rw [hrest, List.length_cons] at hfuel'
      obtain ⟨fuel', rfl⟩ := Nat.exists_eq_add_of_lt hfuel'
      rw [run, hrest] at h
      dsimp only at h
      cases hstep : s'.step c with
      | ok next => exact Read.clean_ok _
      | error e =>
        rw [hstep] at h
        exact h
  · intro h
    induction fuel generalizing s with
    | zero => exact Read.clean_ok _
    | succ fuel ih =>
      cases hrest : s.cur.rest with
      | nil =>
        rw [run_of_rest_nil hrest]
        exact Read.clean_ok _
      | cons c tail =>
        have hclean := (clean_step hrest).mpr (h s .refl)
        rw [run, hrest]
        dsimp only
        cases hstep : s.step c with
        | ok next =>
          have hnext : Next s next := ⟨c, tail, hrest, hstep⟩
          have hlt := hnext.rest_lt
          exact ih (by omega) fun s' hruns => h s' (.head hnext hruns)
        | error e =>
          rw [hstep] at hclean
          exact hclean

/-! ## Section 9: References -/

/-- The target of a reference that can be looked up. -/
def IsKnown (s : ParserState) (target : Text) : Prop :=
  if isDigitText target then
    ∃ number, Numeral.read target = .ok number ∧ 1 ≤ number ∧ number ≤ s.groups
  else ∃ entry ∈ s.names, entry.1 = target

theorem checkReference_eq_ok_iff {r : Reference} :
    s.checkReference r = .ok () ↔ s.IsKnown r.target := by
  unfold checkReference IsKnown
  split
  next =>
    simp only [Read.bind_eq_ok, Read.number_eq_ok_iff]
    refine exists_congr fun number => and_congr_right fun _ => ?_
    rw [Read.guard_eq_ok, Bool.or_eq_true, beq_iff_eq, decide_eq_true_eq, not_or, Nat.not_lt]
    simp [Nat.one_le_iff_ne_zero]
  next =>
    rw [Read.guard_eq_ok'.trans (and_iff_left rfl)]
    simp

theorem checkReferences_eq_ok_iff :
    s.checkReferences = .ok () ↔ ∀ r ∈ s.references, s.IsKnown r.target := by
  simp only [checkReferences, forM_eq_ok_iff, List.mem_reverse, checkReference_eq_ok_iff]

end ParserState

/-- A target that is a number by its characters and cannot be read as
    one. -/
def IsUnreadable (target : Text) : Prop :=
  isDigitText target = true ∧ (target.all isDecimal = false ∨ Numeral.maxDigits < target.length)

namespace ParserState

variable {s : ParserState}

/-- The first reference that is not good cannot be read. -/
def HasUnreadableReference (s : ParserState) : Prop :=
  ∃ before r after, s.references.reverse = before ++ r :: after ∧
    (∀ b ∈ before, s.IsKnown b.target) ∧ IsUnreadable r.target

theorem clean_checkReference {r : Reference} :
    (s.checkReference r).Clean ↔ ¬ IsUnreadable r.target := by
  unfold checkReference IsUnreadable
  split
  next hdigits =>
    have hsome : r.target ≠ [] := by
      rintro heq
      simp [heq, isDigitText] at hdigits
    have hread : (Read.number r.target).Clean ↔
        ¬ (r.target.all isDecimal = false ∨ Numeral.maxDigits < r.target.length) := by
      rw [Read.clean_number, not_or, Bool.not_eq_false, Nat.not_lt]
      exact and_iff_right hsome
    rw [Read.clean_bind, hread, not_and]
    rw [and_iff_left fun number _ => ?_]
    · exact ⟨fun h _ => h, fun h => h hdigits⟩
    · exact Read.clean_ite (fun _ => Read.clean_fail _ _) fun _ => Read.clean_pure _
  next hname =>
    refine iff_of_true ?_ fun h => hname h.1
    exact Read.clean_ite (fun _ => Read.clean_ok _) fun _ => Read.clean_fail _ _

/-- Checks in a row fail over a number exactly when one does after others
    that succeed. -/
theorem clean_forM {α : Type} {check : α → Read Unit} {items : List α} :
    (items.forM check).Clean ↔ ∀ before item after, items = before ++ item :: after →
      (∀ b ∈ before, check b = .ok ()) → (check item).Clean := by
  induction items with
  | nil => exact iff_of_true (Read.clean_pure ()) (by simp)
  | cons first rest ih =>
    have hcons : (first :: rest).forM check = check first >>= fun _ => rest.forM check := rfl
    rw [hcons, Read.clean_bind]
    constructor
    · intro hgiven before item after hitems hbefore
      obtain ⟨hfirst, hrest⟩ := hgiven
      cases before with
      | nil =>
        obtain ⟨rfl, -⟩ := List.cons.inj hitems
        exact hfirst
      | cons b before =>
        obtain ⟨rfl, htail⟩ := List.cons.inj hitems
        obtain ⟨hok, hbefore⟩ := List.forall_mem_cons.mp hbefore
        exact ih.mp (hrest () hok) before item after htail hbefore
    · intro h
      refine ⟨h [] first rest rfl nofun, fun _ hok => ih.mpr ?_⟩
      intro before item after hitems hbefore
      exact h (first :: before) item after (congrArg (first :: ·) hitems)
        (List.forall_mem_cons.mpr ⟨hok, hbefore⟩)

theorem clean_checkReferences : s.checkReferences.Clean ↔ ¬ s.HasUnreadableReference := by
  unfold checkReferences HasUnreadableReference
  rw [clean_forM]
  simp only [clean_checkReference, checkReference_eq_ok_iff]
  push Not
  rfl

/-- The pattern ends without a failure over a number unless all groups are
    closed and a reference cannot be read. -/
theorem IsNormal.clean_finish (h : s.IsNormal) :
    s.finish.Clean ↔ (s.outer = [] → ¬ s.HasUnreadableReference) := by
  unfold finish
  cases houter : s.outer with
  | cons frame outer => exact iff_of_true (Read.clean_fail _ _) nofun
  | nil =>
    have hclose : ∃ root, s.frame.close s.count s.cur.pos = .ok root := by
      simp only [Frame.close, h.root_of_outer houter]
      exact ⟨_, rfl⟩
    obtain ⟨⟨root, count⟩, hroot⟩ := hclose
    rw [hroot, forall_prop_of_true rfl, ← clean_checkReferences]
    change (s.checkReferences >>= fun _ => pure root).Clean ↔ _
    rw [Read.clean_bind]
    exact and_iff_left fun _ _ => Read.clean_pure _

end ParserState

/-! ## Section 10: Parsing -/

namespace Pattern

/-- No quantifier that the parser comes to has a bound of too many
    digits. -/
def HasShortBounds (text : Text) : Prop :=
  ∀ s, (ParserState.initial text).RunsTo s → ¬ s.MeetsOverlongBound

theorem clean_read {text : Text} :
    (read text).Clean ↔ ∀ s, (ParserState.initial text).RunsTo s →
      (¬ s.MeetsOverlongBound ∧ ¬ s.MeetsOverlongOffset) ∧
      (s.cur.rest = [] → s.outer = [] → ¬ s.HasUnreadableReference) := by
  have hfuel : (ParserState.initial text).cur.rest.length ≤ text.length := Nat.le_refl _
  have hlast : ∀ last, (ParserState.initial text).RunsTo last →
      ((last.finish >>= fun root => pure ⟨text, root, last.groups, last.names⟩ : Read Pattern).Clean ↔
        (last.outer = [] → ¬ last.HasUnreadableReference)) := by
    intro last hruns
    rw [Read.clean_bind, (ParserState.IsNormal.of_runsTo hruns).clean_finish]
    exact and_iff_left fun _ _ => Read.clean_pure _
  unfold read
  rw [Read.clean_bind, ParserState.clean_run hfuel]
  constructor
  · intro hgiven s hs
    obtain ⟨hruns, hfinish⟩ := hgiven
    refine ⟨hruns s hs, fun hend => ?_⟩
    exact (hlast s hs).mp (hfinish s (ParserState.run_of_runsTo hs hend hfuel))
  · intro h
    refine ⟨fun s hs => (h s hs).1, fun last hrun => ?_⟩
    obtain ⟨hs, hend⟩ := ParserState.runsTo_of_run hfuel hrun
    exact (hlast last hs).mpr ((h last hs).2 hend)

/-- When the bounds of its quantifiers are short, a text is a pattern or is
    met with a parse error, unless reading it comes to a relative reference
    that is too long, or it ends well up to its references and one of them
    cannot be read. -/
theorem settled_iff {text : Text} (hbounds : HasShortBounds text) :
    ((∃ p, parse text = .ok p) ∨ ∃ e, parse text = .error (.malformed e)) ↔
      ∀ s, (ParserState.initial text).RunsTo s → ¬ s.MeetsOverlongOffset ∧
        (s.cur.rest = [] → s.outer = [] → ¬ s.HasUnreadableReference) := by
  have hsettled : ((∃ p, parse text = .ok p) ∨ ∃ e, parse text = .error (.malformed e)) ↔
      (read text).Clean := by
    unfold parse
    cases read text with
    | ok p => exact iff_of_true (.inl ⟨p, rfl⟩) (Read.clean_ok p)
    | error e => cases e <;> simp [Except.mapError, failure, Read.Clean]
  rw [hsettled, clean_read]
  refine forall_congr' fun s => forall_congr' fun hs => ?_
  rw [and_iff_right (hbounds s hs)]

/-- A text without braces has no bounds at all. -/
theorem hasShortBounds_of_not_mem {text : Text} (h : '{' ∉ text) : HasShortBounds text := by
  intro s hruns
  have hrest : '{' ∉ s.cur.rest := by
    refine hruns.invariant (P := fun s => '{' ∉ s.cur.rest) (fun {s s'} hs hmove => ?_) h
    obtain ⟨⟨n, -, hcur⟩, -⟩ := hmove.passes
    rw [hcur]
    exact fun hmem => hs (List.mem_of_mem_drop hmem)
  cases htext : s.cur.rest with
  | nil => exact (ParserState.not_meets_of_rest_nil htext).1
  | cons c tail =>
    refine ParserState.not_meetsOverlongBound htext ?_
    rintro rfl
    exact hrest (htext ▸ List.mem_cons_self)

/-- A superscript is a digit and no numeral, so that the condition here is
    taken for a number and cannot be read as one. -/
theorem settled_iff_of_superscript :
    HasShortBounds "(a)(?(²)b)".toList ∧
      parse "(a)(?(²)b)".toList = .error (.numeral (.notDecimal ['²'])) ∧
      ¬ ∀ s, (ParserState.initial "(a)(?(²)b)".toList).RunsTo s → ¬ s.MeetsOverlongOffset ∧
        (s.cur.rest = [] → s.outer = [] → ¬ s.HasUnreadableReference) := by
  have hbounds : HasShortBounds "(a)(?(²)b)".toList := hasShortBounds_of_not_mem (by decide)
  have hfails : parse "(a)(?(²)b)".toList = .error (.numeral (.notDecimal ['²'])) := rfl
  refine ⟨hbounds, hfails, mt (settled_iff hbounds).mpr ?_⟩
  rintro (⟨p, hp⟩ | ⟨e, he⟩)
  · rw [hfails] at hp
    simp at hp
  · rw [hfails] at he
    simp at he

end Pattern

end RegexInsight
