import Mathlib
import RegexInsight.Proofs.Pattern.CutLeaf
import RegexInsight.Proofs.Pattern.Offset

/-! # What an escape depends on

    An escape is read from its own characters, whatever flags are in force,
    however many groups have been opened and however the text goes on behind
    it.  A reference with a sign is the exception: it counts from the number
    of groups, and everything else about it is the same. -/

namespace RegexInsight

/-! ## Section 1: Texts that begin alike -/

namespace Cursor.Agrees

variable {cur other : Cursor} {n : Nat} {found rest : Text}

theorem refl (hle : n ≤ cur.rest.length) : cur.Agrees cur n :=
  ⟨cur.rest, [], [], (List.append_nil _).symm, (List.append_nil _).symm, hle, endsAlike_nil []⟩

theorem length_le (h : cur.Agrees other n) : n ≤ cur.rest.length := by
  obtain ⟨common, more, tail, hcur, -, hlength, -⟩ := h
  rw [hcur, List.length_append]
  omega

/-- Without parentheses, what stands at the second cursor also stands at the
    first. -/
theorem exists_append_of_not_mem (h : cur.Agrees other n) (hrest : other.rest = found ++ rest)
    (hopen : '(' ∉ found) (hclose : ')' ∉ found) : ∃ rest', cur.rest = found ++ rest' := by
  obtain ⟨common, more, tail, hcur, hother, -, hends⟩ := h
  rcases List.append_eq_append_iff.mp (hrest.symm.trans hother) with
    ⟨inner, rfl, -⟩ | ⟨inner, rfl, htail⟩
  · exact ⟨inner ++ more, by rw [hcur, List.append_assoc]⟩
  · cases inner with
    | nil => exact ⟨more, by rw [hcur, List.append_nil]⟩
    | cons c inner =>
      -- what is found would go on into the tail, which begins with a parenthesis
      have hc : c ∈ common ++ c :: inner := by simp
      rcases hends.head c (by rw [htail]; rfl) with rfl | rfl
      · exact absurd hc hopen
      · exact absurd hc hclose

end Cursor.Agrees

/-- The texts at two cursors begin with the same `n` characters or more, and
    the second text ends there if the first one does. -/
structure Cursor.Matches (cur other : Cursor) (n : Nat) : Prop where
  agrees : cur.Agrees other n
  ends : cur.rest.length ≤ n → other.rest.length ≤ n

namespace Cursor.Matches

variable {cur other : Cursor} {m n : Nat}

theorem of_rest_eq (hrest : other.rest = cur.rest) (hle : n ≤ cur.rest.length) :
    cur.Matches other n where
  agrees := ⟨cur.rest, [], [], (List.append_nil _).symm, by rw [hrest, List.append_nil], hle,
    endsAlike_nil []⟩
  ends hlength := by rwa [hrest]

theorem mono (h : cur.Matches other n) (hle : m ≤ n) : cur.Matches other m where
  agrees := h.agrees.mono hle
  ends hlength := by
    have hn := h.agrees.length_le
    have hends := h.ends
    omega

theorem advance (h : cur.Matches other (m + n)) :
    (cur.advance m).Matches (other.advance m) n where
  agrees := h.agrees.advance
  ends hlength := by
    have hends := h.ends
    rw [advance_rest, List.length_drop] at hlength ⊢
    omega

/-- Texts that begin alike up to the end of the first one are the same if the
    second one ends there, too. -/
theorem rest_eq (h : cur.Matches other cur.rest.length) : other.rest = cur.rest := by
  have htake := h.agrees.take
  rwa [List.take_length, List.take_of_length_le (h.ends (Nat.le_refl _))] at htake

end Cursor.Matches

/-! ## Section 2: Flags -/

/-- A label as it is read under some flags: they decide what a literal
    accepts. -/
def Label.recased (modes : Modes) : Label → Label
  | literal c _ => modes.literal c
  | other => other

theorem Label.isRepeatable_recased (modes : Modes) (label : Label) :
    (label.recased modes).isRepeatable = label.isRepeatable := by
  cases label <;> rfl

namespace Escape

/-- A reading as it comes about under some flags. -/
def Reading.recased (modes : Modes) (reading : Reading) : Reading :=
  ⟨reading.leaves.map fun leaf => { leaf with label := leaf.label.recased modes },
    reading.reference⟩

variable {modes modes' : Modes} {groups start : Nat} {cur after : Cursor} {reading : Reading}

theorem quotedLeaves_recased (pos : Nat) (text : Text) :
    quotedLeaves modes' pos text = (quotedLeaves modes pos text).map
      fun leaf => { leaf with label := leaf.label.recased modes' } := by
  induction text generalizing pos with
  | nil => rfl
  | cons c rest ih =>
    rw [quotedLeaves, quotedLeaves, List.map_cons, ← ih]
    rfl

theorem readNumbered_recased {first : Char}
    (h : readNumbered modes start first cur = .ok (reading, after)) :
    readNumbered modes' start first cur = .ok (reading.recased modes', after) := by
  unfold readNumbered at h ⊢
  dsimp only at h ⊢
  split at h
  next hoctal =>
    obtain ⟨code, hcode, hpair⟩ := Read.bind_eq_ok.mp h
    obtain ⟨rfl, rfl⟩ := Prod.mk.inj (Except.ok.inj hpair)
    rw [if_pos hoctal, hcode]
    rfl
  next hoctal =>
    obtain ⟨rfl, rfl⟩ := Prod.mk.inj (Except.ok.inj h)
    rw [if_neg hoctal]
    rfl

theorem readQuoted_recased (h : readQuoted modes cur = (reading, after)) :
    readQuoted modes' cur = (reading.recased modes', after) := by
  obtain ⟨quoted, hquotes, rfl⟩ := quotes_of_readQuoted h
  rw [hquotes.readQuoted_eq, quotedLeaves_recased]
  rfl

/-- A reading that refers to a group has no literal. -/
theorem Reading.IsReference.recased (h : reading.IsReference) (modes : Modes) :
    reading.recased modes = reading := by
  obtain ⟨leaves, reference⟩ := reading
  obtain ⟨⟨label, start, stop⟩, hleaves, hlabel⟩ := h
  obtain rfl : leaves = _ := hleaves
  cases label <;> first | rfl | exact Bool.noConfusion hlabel

/-- The flags in force decide nothing but what literals accept. -/
theorem read_recased {rest : Text} (hrest : cur.rest = '\\' :: rest)
    (h : Escape.read modes groups cur = .ok (reading, after)) :
    Escape.read modes' groups cur = .ok (reading.recased modes', after) := by
  obtain ⟨c, rest, rfl⟩ := exists_cons_of_read hrest h
  obtain ⟨f, hform, hread⟩ := exists_form c
  rw [hread modes groups cur rest hrest] at h
  refine (hread modes' groups cur rest hrest).trans ?_
  cases hform with
  | shorthand _ | anchor _ | literal _ =>
    obtain ⟨rfl, rfl⟩ := Prod.mk.inj (Except.ok.inj h)
    rfl
  | property _ | hexadecimal _ | octal =>
    obtain ⟨found, hfound, hpair⟩ := Read.bind_eq_ok.mp h
    obtain ⟨rfl, rfl⟩ := Prod.mk.inj (Except.ok.inj hpair)
    exact Read.bind_eq_ok.mpr ⟨found, hfound, rfl⟩
  | numbered hdigit => exact readNumbered_recased h
  | named =>
    rw [(isReference_of_readNamed h).recased]
    exact h
  | general =>
    rw [(isReference_of_readGeneral h).recased]
    exact h
  | quoted => exact congrArg Except.ok (readQuoted_recased (Except.ok.inj h))
  | unknown => simp at h

/-- What was read under some flags is as it comes about under them. -/
theorem recased_of_read {rest : Text} (hrest : cur.rest = '\\' :: rest)
    (h : Escape.read modes groups cur = .ok (reading, after)) :
    reading.recased modes = reading := by
  obtain ⟨hsame, -⟩ := Prod.mk.inj (Except.ok.inj ((read_recased hrest h).symm.trans h))
  exact hsame

end Escape

/-! ## Section 3: Signs -/

/-- The marks of a relative reference. -/
def isSign (c : Char) : Bool :=
  c == '+' || c == '-'

/-- The reference at the start of a text is written with a sign. -/
def showsSign : Text → Bool
  | '(' :: '?' :: c :: _ => isSign c
  | '\\' :: 'g' :: '-' :: _ => true
  | '\\' :: 'g' :: opening :: c :: _ => (Escape.closing? opening).isSome && isSign c
  | _ => false

namespace Escape

variable {start groups n : Nat} {cur after : Cursor} {reading : Reading}
  {reference written : Text}

/-- Without a sign a reference means what is written. -/
theorem absoluteReference_unsigned (h : absoluteReference start groups written = .ok reference)
    (hunsigned : signedDigits? written = none) (start' groups' : Nat) :
    reference = written ∧ absoluteReference start' groups' written = .ok reference := by
  simp only [absoluteReference, hunsigned] at h ⊢
  obtain ⟨hform, hpair⟩ := Read.guard_eq_ok'.mp h
  obtain rfl := Except.ok.inj hpair
  exact ⟨rfl, Read.guard_eq_ok'.mpr ⟨hform, rfl⟩⟩

/-- A reference that can be made absolute begins with a sign if it is a
    signed number, and only then. -/
theorem isSome_signedDigits? (h : absoluteReference start groups written = .ok reference) :
    (signedDigits? written).isSome = written.head?.any isSign := by
  cases hsigned : signedDigits? written with
  | some found =>
    obtain ⟨backward, digits⟩ := found
    obtain ⟨rfl, -, -⟩ := signedDigits?_eq_some_iff.mp hsigned
    cases backward <;> rfl
  | none =>
    simp only [absoluteReference, hsigned] at h
    obtain ⟨hform, -⟩ := Read.guard_eq_ok'.mp h
    cases written with
    | nil => rfl
    | cons c rest =>
      -- neither a digit nor a letter is a sign
      have hno : ∀ sign ∈ ['+', '-'], c ≠ sign := by
        intro sign hsign heq
        subst heq
        have hplus : (isDigitChar '+' || isLetter '+') = false := by decide +kernel
        have hminus : (isDigitChar '-' || isLetter '-') = false := by decide +kernel
        rw [Bool.or_eq_false_iff] at hplus hminus
        simp only [List.mem_cons, List.not_mem_nil, or_false] at hsign
        rcases hsign with rfl | rfl
        · simp [isDigitText, isGroupName, hplus] at hform
        · simp [isDigitText, isGroupName, hminus] at hform
      simp [isSign, hno '+' (by decide), hno '-' (by decide)]

theorem groupAt_succ {backward : Bool} {offset : Nat}
    (h : groupAt (groups + 1) backward offset ≠ 0) :
    groupAt (groups + 1) backward offset = groupAt groups backward offset + 1 := by
  unfold groupAt at h ⊢
  split_ifs at h ⊢ <;> omega

theorem absoluteReference_signed {backward : Bool} {digits : Text}
    (h : signedDigits? written = some (backward, digits)) (start groups : Nat) :
    absoluteReference start groups written = (do
      let offset ← Read.number digits
      if groupAt groups backward offset == 0 then .fail (.referenceBeforeFirst written) start
      else Read.numeralOf (groupAt groups backward offset)) := by
  simp only [absoluteReference, h]
  rfl

/-- Where a reference stands matters to its faults only. -/
theorem absoluteReference_anywhere (h : absoluteReference start groups written = .ok reference)
    (start' : Nat) : absoluteReference start' groups written = .ok reference := by
  cases hsigned : signedDigits? written with
  | none => exact (absoluteReference_unsigned h hsigned start' groups).2
  | some found =>
    obtain ⟨backward, digits⟩ := found
    rw [absoluteReference_signed hsigned] at h ⊢
    obtain ⟨offset, hoffset, hgroup⟩ := Read.bind_eq_ok.mp h
    obtain ⟨hnonzero, hwrite⟩ := Read.guard_eq_ok.mp hgroup
    exact Read.bind_eq_ok.mpr ⟨offset, hoffset, Read.guard_eq_ok.mpr ⟨hnonzero, hwrite⟩⟩

/-- A number is written if a greater one is. -/
theorem numeralOf_of_succ {number : Nat} (h : Read.numeralOf (number + 1) = .ok reference) :
    reference = Nat.toDigits 10 (number + 1) ∧
      Read.numeralOf number = .ok (Nat.toDigits 10 number) := by
  have hwritten : Numeral.write (number + 1) = .ok reference := by
    unfold Read.numeralOf at h
    split at h
    next htext => rw [htext, Except.ok.inj h]
    next => simp at h
  obtain ⟨rfl, hlength⟩ := Numeral.write_eq_ok_iff.mp hwritten
  have hlt : number + 1 < 10 ^ Numeral.maxDigits := by
    have hvalue := Numeral.value_lt (Nat.toDigits 10 (number + 1))
    rw [Numeral.value_toDigits] at hvalue
    exact Nat.lt_of_lt_of_le hvalue (Nat.pow_le_pow_right (by decide) hlength)
  have hshort := Nat.toDigits_length 10 number Numeral.maxDigits (by decide) (by omega)
  exact ⟨rfl, by rw [Read.numeralOf, Numeral.write_eq_ok_iff.mpr ⟨rfl, hshort⟩]⟩

/-- A signed number that counts from one group less leads to one group less,
    if there is one. -/
theorem absoluteReference_pred (h : absoluteReference start (groups + 1) written = .ok reference)
    (hsigned : (signedDigits? written).isSome = true) (start' : Nat) :
    ∃ number, reference = Nat.toDigits 10 (number + 1) ∧
      (0 < number → absoluteReference start' groups written = .ok (Nat.toDigits 10 number)) ∧
      (number = 0 → ∃ e, absoluteReference start' groups written = .error e) := by
  obtain ⟨⟨backward, digits⟩, hdigits⟩ := Option.isSome_iff_exists.mp hsigned
  rw [absoluteReference_signed hdigits] at h ⊢
  obtain ⟨offset, hoffset, hgroup⟩ := Read.bind_eq_ok.mp h
  obtain ⟨hnonzero, hwrite⟩ := Read.guard_eq_ok.mp hgroup
  rw [groupAt_succ (by simpa using hnonzero)] at hwrite
  obtain ⟨rfl, hnumber⟩ := numeralOf_of_succ hwrite
  refine ⟨groupAt groups backward offset, rfl, fun hpos => ?_, fun hzero => ?_⟩
  · have hpositive : ¬ (groupAt groups backward offset == 0) = true := by simpa using hpos.ne'
    exact Read.bind_eq_ok.mpr ⟨offset, hoffset, Read.guard_eq_ok.mpr ⟨hpositive, hnumber⟩⟩
  · refine ⟨.fault (.referenceBeforeFirst written) start', ?_⟩
    rw [hoffset]
    show (if (groupAt groups backward offset == 0) = true then _ else _) = _
    rw [hzero]
    rfl

end Escape

/-! ## Section 4: Escapes -/

namespace Escape

variable {modes : Modes} {start groups n : Nat} {cur other after : Cursor} {reading : Reading}
  {c : Char} {rest : Text}

/-- The second reading, under these flags, refers to the same and has the
    same leaves up to where they stand. -/
structure Reading.Alike (modes : Modes) (reading reading' : Reading) : Prop where
  reference : reading'.reference = reading.reference
  labels : reading'.leaves.map Leaf.label =
    reading.leaves.map fun leaf => leaf.label.recased modes

theorem Reading.Alike.repeatable {reading' : Reading} (h : reading.Alike modes reading') :
    reading'.leaves.map (fun leaf => leaf.label.isRepeatable) =
      reading.leaves.map fun leaf => leaf.label.isRepeatable := by
  have hlabels := congrArg (List.map Label.isRepeatable) h.labels
  simpa only [List.map_map, Function.comp_def, Label.isRepeatable_recased] using hlabels

/-- How an escape of `n` characters is read wherever they stand. -/
inductive ReadsAlike (cur : Cursor) (reading : Reading) (n : Nat) : Prop where
  /-- Nothing is counted.  Quoted text may go on up to the end of the text. -/
  | fixed (hread : ∀ modes groups other, cur.Agrees other n →
        (['\\', 'Q'] <+: cur.rest → cur.Matches other n) →
        ∃ reading', Escape.read modes groups other = .ok (reading', other.advance n) ∧
          reading.Alike modes reading')
      (hsign : reading.reference.isSome = true → showsSign cur.rest = false)
  /-- A reference that may be relative. -/
  | counted (written : Text) {label : Text → Label} (hlabel : IsOffsetLabel written label)
      (hread : ∀ modes groups other, cur.Agrees other n → Escape.read modes groups other =
        readOffset other.pos groups written label (other.advance n))
      (hsign : written.head?.any isSign = showsSign cur.rest)

/-- A quote is the same in another text that goes on alike. -/
theorem Quotes.agrees {quoted : Text} (h : Quotes cur quoted after) :
    ∃ n, after = cur.advance n ∧ n ≤ cur.rest.length ∧
      ∀ other, cur.Matches other n → Quotes other quoted (other.advance n) := by
  cases h with
  | ended h =>
    exact ⟨quoted.length + 2, rfl, Cursor.length_beforePair? h, fun other hother =>
      .ended (Cursor.Agrees.beforePair? h hother.agrees)⟩
  | unended h =>
    refine ⟨cur.rest.length, rfl, Nat.le_refl _, fun other hother => ?_⟩
    have hsame : other.rest = cur.rest := hother.rest_eq
    rw [← hsame] at h ⊢
    exact .unended h

/-- Where a text is quoted decides nothing but where its literals stand. -/
theorem alike_quotedLeaves (modes modes' : Modes) (pos pos' : Nat) (text : Text) :
    (⟨quotedLeaves modes pos text, none⟩ : Reading).Alike modes'
      ⟨quotedLeaves modes' pos' text, none⟩ := by
  refine ⟨rfl, ?_⟩
  induction text generalizing pos pos' with
  | nil => rfl
  | cons c rest ih =>
    have htail := ih (pos + 1) (pos' + 1)
    simp only [quotedLeaves, List.map_cons, htail]
    rfl

/-- Quoted text is read up to its end, or up to the end of the text. -/
theorem readQuoted_agrees (h : readQuoted modes cur = (reading, after)) :
    ∃ n, after = cur.advance n ∧ n ≤ cur.rest.length ∧ ∀ modes' other, cur.Matches other n →
      ∃ reading', readQuoted modes' other = (reading', other.advance n) ∧
        reading.Alike modes' reading' := by
  obtain ⟨quoted, hquotes, rfl⟩ := quotes_of_readQuoted h
  obtain ⟨n, rfl, hlength, hagrees⟩ := hquotes.agrees
  exact ⟨n, rfl, hlength, fun modes' other hother =>
    ⟨_, (hagrees other hother).readQuoted_eq modes', alike_quotedLeaves modes modes' _ _ quoted⟩⟩

/-- Two digits at the second cursor stand at the first one, too. -/
theorem take_two_of_digits (h : cur.Agrees other n)
    (hlength : ((other.rest.take 2).takeWhile isDigitChar).length = 2) :
    other.rest.take 2 = cur.rest.take 2 := by
  have hall : (other.rest.take 2).takeWhile isDigitChar = other.rest.take 2 := by
    apply (List.takeWhile_prefix _).eq_of_length
    have hle := List.length_take_le 2 other.rest
    have hsub := (List.takeWhile_sublist isDigitChar (l := other.rest.take 2)).length_le
    omega
  have hno : ∀ paren, isDigitChar paren = false → paren ∉ other.rest.take 2 := by
    intro paren hparen hmem
    rw [List.takeWhile_eq_self_iff.mp hall paren hmem] at hparen
    exact Bool.noConfusion hparen
  obtain ⟨rest', hrest'⟩ := h.exists_append_of_not_mem (List.take_append_drop 2 other.rest).symm
    (hno '(' (by decide +kernel)) (hno ')' (by decide +kernel))
  rw [hall] at hlength
  rw [hrest', List.take_left' hlength]

/-- The digits of a reference are one or two, whatever follows them. -/
theorem readNumbered_agrees (h : readNumbered modes start c cur = .ok (reading, after))
    (hreference : reading.IsReference) :
    ∃ n target, after = cur.advance n ∧ n ≤ cur.rest.length ∧ reading.reference = some target ∧
      ∀ modes start other, cur.Agrees other n → readNumbered modes start c other =
        .ok (⟨[⟨.backreference target, start, (other.advance n).pos⟩], some target⟩,
          other.advance n) := by
  have htake : ∀ text : Text, (c :: (text.take 2).takeWhile isDigitChar).take 2 =
      c :: (text.take 1).takeWhile isDigitChar := by
    intro text
    match text with
    | [] => rfl
    | [d] => cases hd : isDigitChar d <;> simp [hd]
    | d :: e :: text => cases hd : isDigitChar d <;> simp [hd]
  unfold readNumbered at h
  dsimp only at h
  split at h
  next hoctal =>
    -- a character code is no reference
    obtain ⟨code, -, hpair⟩ := Read.bind_eq_ok.mp h
    obtain ⟨rfl, -⟩ := Prod.mk.inj (Except.ok.inj hpair)
    obtain ⟨leaf, hleaf, hlabel⟩ := hreference
    obtain rfl := (List.cons.inj hleaf).1
    exact Bool.noConfusion hlabel
  next hoctal =>
    obtain ⟨rfl, rfl⟩ := Prod.mk.inj (Except.ok.inj h)
    rw [htake, List.length_cons, Nat.add_sub_cancel]
    refine ⟨_, _, rfl, ?_, rfl, fun modes start other hother => ?_⟩
    · exact ((List.takeWhile_sublist _).trans (List.take_sublist _ _)).length_le
    · have hparens : isDigitChar '(' = false ∧ isDigitChar ')' = false := by decide +kernel
      have hdigits := hother.takeWhile_take hparens.1 hparens.2 (Nat.le_refl _)
      -- three octal digits here would be three there
      have hoctal' : ¬ ((c :: (other.rest.take 2).takeWhile isDigitChar).length == 3 &&
          (c :: (other.rest.take 2).takeWhile isDigitChar).all isOctal) = true := by
        intro hthree
        have hlength := eq_of_beq (Bool.and_eq_true_iff.mp hthree).1
        rw [List.length_cons] at hlength
        rw [take_two_of_digits hother (by omega)] at hthree
        exact hoctal hthree
      unfold readNumbered
      dsimp only
      rw [if_neg hoctal', htake, hdigits, List.length_cons, Nat.add_sub_cancel]

theorem readNamed_agrees (h : readNamed start cur = .ok (reading, after)) :
    ∃ n target, after = cur.advance n ∧ n ≤ cur.rest.length ∧ reading.reference = some target ∧
      ∀ start other, cur.Agrees other n → readNamed start other =
        .ok (⟨[⟨.backreference target, start, (other.advance n).pos⟩], some target⟩,
          other.advance n) := by
  unfold readNamed at h
  split at h
  next => simp at h
  next terminator hterminator =>
    obtain ⟨⟨name, after'⟩, hname, hpair⟩ := Read.bind_eq_ok.mp h
    obtain ⟨rfl, rfl⟩ := Prod.mk.inj (Except.ok.inj hpair)
    obtain ⟨rfl, hlength, hcut⟩ := Cursor.readName_cut hname
    rw [Cursor.advance_rest, List.length_drop] at hlength
    refine ⟨1 + (name.length + 1), name, Cursor.advance_advance _ _ _, by omega, rfl,
      fun start other hother => ?_⟩
    have hname' := hcut 0 (other.advance 1) hother.advance
    simp only [readNamed, hother.head? (by omega), hterminator, hname', Cursor.advance_advance]
    rfl

/-- Between an opening and its terminator, the first character is the sign. -/
theorem showsSign_general {opening terminator : Char} {written tail : Text}
    (hopening : closing? opening = some terminator) :
    showsSign ('\\' :: 'g' :: opening :: (written ++ terminator :: tail)) =
      written.head?.any isSign := by
  unfold closing? at hopening
  split at hopening
  case h_4 => simp at hopening
  all_goals
    obtain rfl := Option.some.inj hopening
    cases written <;> rfl

/-- How `n` characters behind `\\g` are read wherever they stand: as a call of
    the whole pattern, or as a reference that may be relative. -/
inductive CountsAlike (f : Nat → Nat → Cursor → Read (Reading × Cursor)) (cur : Cursor)
    (reading : Reading) (n : Nat) : Prop where
  | whole (hnone : reading.reference = none)
      (hread : ∀ start groups other, cur.Agrees other n →
        ∃ reading', f start groups other = .ok (reading', other.advance n) ∧
          ∀ modes, reading.Alike modes reading')
  | counted (written : Text) {label : Text → Label} (hlabel : IsOffsetLabel written label)
      (hread : ∀ start groups other, cur.Agrees other n →
        f start groups other = readOffset start groups written label (other.advance n))
      (hsign : written.head?.any isSign = showsSign ('\\' :: 'g' :: cur.rest))

theorem CountsAlike.congr {f g : Nat → Nat → Cursor → Read (Reading × Cursor)}
    (h : CountsAlike f cur reading n)
    (hsame : ∀ start groups other, cur.Agrees other n → g start groups other = f start groups other) :
    CountsAlike g cur reading n := by
  cases h with
  | whole hnone hread =>
    refine .whole hnone fun start groups other hother => ?_
    rw [hsame start groups other hother]
    exact hread start groups other hother
  | counted written hlabel hread hsign =>
    refine .counted written hlabel (fun start groups other hother => ?_) hsign
    rw [hsame start groups other hother]
    exact hread start groups other hother

theorem call_agrees {opening terminator : Char}
    (h : readGeneral.call start groups cur terminator = .ok (reading, after))
    (hrest : cur.rest = opening :: rest) (hopening : closing? opening = some terminator) :
    ∃ n, 0 < n ∧ after = cur.advance n ∧ n ≤ cur.rest.length ∧
      CountsAlike (fun start groups other => readGeneral.call start groups other terminator) cur
        reading n := by
  unfold readGeneral.call at h
  split at h
  next => simp at h
  next written after' hfound =>
    obtain ⟨-, ⟨tail, htail⟩, -⟩ := Cursor.upTo?_eq_some_iff.mp hfound
    obtain ⟨rfl, hlength, hcut⟩ := Cursor.upTo?_cut hfound
    rw [Cursor.advance_rest, List.length_drop] at hlength
    rw [Cursor.advance_rest, hrest, List.drop_succ_cons, List.drop_zero] at htail
    -- on any text that agrees, the reader finds the same number
    have hread : ∀ start groups other, cur.Agrees other (1 + (written.length + 1)) →
        readGeneral.call start groups other terminator =
          if written == ['0'] then
            .ok (⟨[⟨.recursion written, start, (other.advance (1 + (written.length + 1))).pos⟩],
              none⟩, other.advance (1 + (written.length + 1)))
          else readOffset start groups written (fun _ => .recursion written)
            (other.advance (1 + (written.length + 1))) := by
      intro start groups other hother
      simp only [readGeneral.call, hcut _ hother.advance, Cursor.advance_advance]
      rfl
    refine ⟨1 + (written.length + 1), by omega, ?_, by omega, ?_⟩
    · dsimp only at h
      split at h
      next =>
        obtain ⟨-, rfl⟩ := Prod.mk.inj (Except.ok.inj h)
        exact Cursor.advance_advance _ _ _
      next =>
        obtain ⟨reference, -, hpair⟩ := Read.bind_eq_ok.mp h
        obtain ⟨-, rfl⟩ := Prod.mk.inj (Except.ok.inj hpair)
        exact Cursor.advance_advance _ _ _
    · dsimp only at h
      split at h
      next hwhole =>
        obtain ⟨rfl, -⟩ := Prod.mk.inj (Except.ok.inj h)
        refine .whole rfl fun start groups other hother => ?_
        rw [hread start groups other hother, if_pos hwhole]
        exact ⟨_, rfl, fun modes => ⟨rfl, rfl⟩⟩
      next hwhole =>
        refine .counted written (.inr rfl) (fun start groups other hother => ?_) ?_
        · rw [hread start groups other hother, if_neg hwhole]
        · rw [hrest, htail, showsSign_general hopening]

/-- A target in braces. -/
theorem braced_agrees (hrest : cur.rest = '\x7b' :: rest)
    (h : readGeneral start groups cur = .ok (reading, after)) :
    ∃ n, 0 < n ∧ after = cur.advance n ∧ n ≤ cur.rest.length ∧
      CountsAlike readGeneral cur reading n := by
  simp only [readGeneral, hrest] at h
  split at h
  next => simp at h
  next written after' hfound =>
    obtain ⟨-, ⟨tail, htail⟩, -⟩ := Cursor.upTo?_eq_some_iff.mp hfound
    obtain ⟨rfl, hlength, hcut⟩ := Cursor.upTo?_cut hfound
    rw [Cursor.advance_rest, List.length_drop] at hlength
    rw [Cursor.advance_rest, hrest, List.drop_succ_cons, List.drop_zero] at htail
    obtain ⟨reference, -, hpair⟩ := Read.bind_eq_ok.mp h
    obtain ⟨rfl, rfl⟩ := Prod.mk.inj (Except.ok.inj hpair)
    refine ⟨1 + (written.length + 1), by omega, Cursor.advance_advance _ _ _, by omega,
      .counted written (.inl rfl) (fun start groups other hother => ?_) ?_⟩
    · obtain ⟨rest', hrest'⟩ := hother.exists_cons hrest (by omega)
      simp only [readGeneral, hrest', hcut _ hother.advance, Cursor.advance_advance]
      rfl
    · rw [hrest, htail, showsSign_general rfl]

/-- Digits show no sign, where no opening and no dash stands before them. -/
theorem showsSign_bare {d : Char} {text : Text} (hd : isDecimal d = true)
    (hclosing : closing? d = none) : showsSign ('\\' :: 'g' :: d :: text) = isSign d := by
  have hminus : d ≠ '-' := by
    rintro rfl
    exact absurd hd (by decide +kernel)
  have hplus : d ≠ '+' := by
    rintro rfl
    exact absurd hd (by decide +kernel)
  cases text with
  | nil => simp [showsSign, isSign, hminus, hplus]
  | cons e more => simp [showsSign, isSign, hclosing, hminus, hplus]

/-- Digits, which a dash makes relative. -/
theorem bare_agrees (hbare : cur.rest.head?.bind closing? = none)
    (h : readGeneral start groups cur = .ok (reading, after)) :
    ∃ n, 0 < n ∧ after = cur.advance n ∧ n ≤ cur.rest.length ∧
      CountsAlike readGeneral cur reading n := by
  rw [readGeneral_bare hbare] at h
  dsimp only at h
  obtain ⟨hsome, hback⟩ := Read.guard_eq_ok.mp h
  obtain ⟨reference, -, hpair⟩ := Read.bind_eq_ok.mp hback
  obtain ⟨rfl, rfl⟩ := Prod.mk.inj (Except.ok.inj hpair)
  -- the dash, if there is one
  obtain ⟨sign, hsign⟩ : ∃ sign : Text, (if cur.rest.head? == some '-' then ['-'] else []) = sign :=
    ⟨_, rfl⟩
  rw [hsign] at hsome ⊢
  obtain ⟨digits, tail, htail, hdigits, -, hrun⟩ := (cur.advance sign.length).run_spec isDecimal
  rw [hrun] at hsome ⊢
  have hpos : 0 < digits.length := List.length_pos_iff.mpr (by simpa using hsome)
  have hlength := congrArg List.length htail
  rw [Cursor.advance_rest, List.length_drop, List.length_append] at hlength
  refine ⟨sign.length + digits.length, by omega, Cursor.advance_advance _ _ _, by omega,
    .counted (sign ++ digits) (.inl rfl) (fun start groups other hother => ?_) ?_⟩
  · have hhead := hother.head? (by omega)
    have hrun' := hother.advance.run (by decide +kernel) (by decide +kernel) hrun (Nat.le_refl _)
    rw [readGeneral_bare (by rwa [hhead])]
    simp only [hhead, hsign, hrun', if_neg hsome, Cursor.advance_advance]
    rfl
  · by_cases hdash : cur.rest.head? = some '-'
    · obtain ⟨rest, hrest⟩ := List.head?_eq_some_iff.mp hdash
      rw [← hsign, hrest]
      rfl
    · have hnone : sign = [] := by
        rw [← hsign]
        exact if_neg (by simpa using hdash)
      subst hnone
      obtain ⟨d, digits, rfl⟩ := List.exists_cons_of_length_pos hpos
      have hrest : cur.rest = d :: (digits ++ tail) := htail
      rw [hrest] at hbare ⊢
      rw [showsSign_bare (hdigits d List.mem_cons_self) hbare]
      rfl

theorem readGeneral_agrees (h : readGeneral start groups cur = .ok (reading, after)) :
    ∃ n, 0 < n ∧ after = cur.advance n ∧ n ≤ cur.rest.length ∧
      CountsAlike readGeneral cur reading n := by
  cases hclosing : cur.rest.head?.bind closing? with
  | none => exact bare_agrees hclosing h
  | some terminator =>
    obtain ⟨opening, hhead, hopening⟩ := Option.bind_eq_some_iff.mp hclosing
    obtain ⟨rest, hrest⟩ := List.head?_eq_some_iff.mp hhead
    by_cases hbrace : opening = '\x7b'
    · subst hbrace
      exact braced_agrees hrest h
    · rw [readGeneral_call hrest hopening hbrace] at h
      obtain ⟨n, hpos, hafter, hlength, halike⟩ := call_agrees h hrest hopening
      refine ⟨n, hpos, hafter, hlength, halike.congr fun start groups other hother => ?_⟩
      obtain ⟨rest', hrest'⟩ := hother.exists_cons hrest hpos
      exact readGeneral_call hrest' hopening hbrace

/-- A leaf that does not refer makes no reference. -/
theorem Reading.not_isReference_leaf {label : Label} {stop : Nat}
    (hlabel : label.isReference = false) : ¬ (Reading.leaf label start stop).IsReference := by
  intro hsome
  obtain ⟨leaf, hleaves, hreference⟩ := hsome
  obtain rfl := (List.cons.inj hleaves).1
  exact Bool.noConfusion (hlabel.symm.trans hreference)

/-- An escape that refers to a group is one of three. -/
theorem read_reference (hrest : cur.rest = '\\' :: c :: rest) (hc : c ≠ 'Q')
    (h : Escape.read modes groups cur = .ok (reading, after)) (hreference : reading.IsReference) :
    (isDigitChar c = true ∧ readNumbered modes cur.pos c (cur.advance 2) = .ok (reading, after) ∧
      ∀ modes groups other rest', other.rest = '\\' :: c :: rest' →
        Escape.read modes groups other = readNumbered modes other.pos c (other.advance 2)) ∨
      (c = 'k' ∧ readNamed cur.pos (cur.advance 2) = .ok (reading, after)) ∨
      (c = 'g' ∧ readGeneral cur.pos groups (cur.advance 2) = .ok (reading, after)) := by
  obtain ⟨f, hform, hread⟩ := exists_form c
  rw [hread modes groups cur rest hrest] at h
  cases hform with
  | shorthand _ | anchor _ | literal _ =>
    obtain ⟨rfl, -⟩ := Prod.mk.inj (Except.ok.inj h)
    exact absurd hreference (Reading.not_isReference_leaf rfl)
  | property _ | hexadecimal _ | octal =>
    obtain ⟨_, -, hpair⟩ := Read.bind_eq_ok.mp h
    obtain ⟨rfl, -⟩ := Prod.mk.inj (Except.ok.inj hpair)
    exact absurd hreference (Reading.not_isReference_leaf rfl)
  | numbered hdigit => exact .inl ⟨hdigit, h, hread⟩
  | named => exact .inr (.inl ⟨rfl, h⟩)
  | general => exact .inr (.inr ⟨rfl, h⟩)
  | quoted => exact absurd rfl hc
  | unknown => simp at h

theorem showsSign_of_ne (hc : c ≠ 'g') : showsSign ('\\' :: c :: rest) = false := by
  unfold showsSign
  split
  next heq => exact absurd (List.cons.inj heq).1 (by decide)
  next heq => exact absurd (List.cons.inj (List.cons.inj heq).2).1 hc
  next heq => exact absurd (List.cons.inj (List.cons.inj heq).2).1 hc
  next => rfl

/-- A reading that begins behind an escaped character, without a sign. -/
theorem readsAlike_behind {f : Modes → Nat → Cursor → Read (Reading × Cursor)} {target : Text}
    (hrest : cur.rest = '\\' :: c :: rest) (hc : c ≠ 'g')
    (hlength : n ≤ (cur.advance 2).rest.length)
    (h : Escape.read modes groups cur = .ok (reading, after))
    (hread : ∀ modes start other, (cur.advance 2).Agrees other n → f modes start other =
      .ok (⟨[⟨.backreference target, start, (other.advance n).pos⟩], some target⟩,
        other.advance n))
    (hsame : ∀ modes groups other rest', other.rest = '\\' :: c :: rest' →
      Escape.read modes groups other = f modes other.pos (other.advance 2)) :
    2 + n ≤ cur.rest.length ∧ ReadsAlike cur reading (2 + n) := by
  have hself := h
  rw [hsame modes groups cur rest hrest, hread modes cur.pos _ (.refl hlength)] at hself
  obtain ⟨rfl, -⟩ := Prod.mk.inj (Except.ok.inj hself)
  rw [Cursor.advance_rest, List.length_drop, hrest, List.length_cons, List.length_cons] at hlength
  refine ⟨by rw [hrest, List.length_cons, List.length_cons]; omega,
    .fixed (fun modes groups other hother _ => ?_) fun _ => hrest ▸ showsSign_of_ne hc⟩
  obtain ⟨rest', hrest'⟩ := hother.exists_cons_cons hrest (by omega)
  rw [hsame modes groups other rest' hrest', hread modes other.pos _ hother.advance,
    Cursor.advance_advance]
  exact ⟨_, rfl, rfl, rfl⟩

/-- Every escape is read from its own characters, up to what it counts. -/
theorem readsAlike_of_read (hrest : cur.rest = '\\' :: rest)
    (h : Escape.read modes groups cur = .ok (reading, after)) :
    ∃ n, 0 < n ∧ after = cur.advance n ∧ n ≤ cur.rest.length ∧ ReadsAlike cur reading n := by
  obtain ⟨c, rest, rfl⟩ := exists_cons_of_read hrest h
  have hlength : cur.rest.length = rest.length + 2 := by rw [hrest]; rfl
  have hbehind : ∀ {n : Nat}, n ≤ (cur.advance 2).rest.length → 2 + n ≤ cur.rest.length := by
    intro n hn
    rw [Cursor.advance_rest, List.length_drop] at hn
    omega
  by_cases hquote : c = 'Q'
  · subst hquote
    rw [read_eq_readQuoted hrest] at h
    obtain ⟨n, rfl, hn, hagrees⟩ := readQuoted_agrees (Except.ok.inj h)
    have hnone : reading.reference = none := by
      obtain ⟨quoted, -, rfl⟩ := quotes_of_readQuoted (Except.ok.inj h)
      rfl
    refine ⟨2 + n, by omega, Cursor.advance_advance _ _ _, hbehind hn,
      .fixed (fun modes' groups' other hother hmatches => ?_) (by simp [hnone])⟩
    obtain ⟨rest', hrest'⟩ := hother.exists_cons_cons hrest (by omega)
    have hquoted := hmatches ⟨rest, hrest.symm⟩
    obtain ⟨reading', hreading', halike⟩ := hagrees modes' (other.advance 2) hquoted.advance
    rw [read_eq_readQuoted hrest', hreading', Cursor.advance_advance]
    exact ⟨reading', rfl, halike⟩
  -- only a reference may depend on what the text around it counts
  rcases read_cut hrest hquote h with hreference | hat
  · rcases read_reference hrest hquote h hreference with
      ⟨hdigit, hnumbered, hsame⟩ | ⟨rfl, hnamed⟩ | ⟨rfl, hgeneral⟩
    · obtain ⟨n, target, rfl, hn, href, hread⟩ := readNumbered_agrees hnumbered hreference
      have hg : c ≠ 'g' := by
        intro heq
        rw [heq] at hdigit
        exact absurd hdigit (by decide +kernel)
      obtain ⟨hlength, halike⟩ := readsAlike_behind hrest hg hn h hread hsame
      exact ⟨2 + n, by omega, Cursor.advance_advance _ _ _, hlength, halike⟩
    · obtain ⟨n, target, rfl, hn, href, hread⟩ := readNamed_agrees hnamed
      obtain ⟨hlength, halike⟩ := readsAlike_behind (f := fun _ => readNamed) hrest (by decide) hn
        h (fun _ => hread) fun modes groups other rest' => read_eq_readNamed
      exact ⟨2 + n, by omega, Cursor.advance_advance _ _ _, hlength, halike⟩
    · obtain ⟨n, hpos, rfl, hn, halike⟩ := readGeneral_agrees hgeneral
      have hshown : '\\' :: 'g' :: (cur.advance 2).rest = cur.rest := by
        rw [Cursor.advance_rest, hrest]
        rfl
      refine ⟨2 + n, by omega, Cursor.advance_advance _ _ _, hbehind hn, ?_⟩
      cases halike with
      | whole hnone hwhole =>
        refine .fixed (fun modes groups other hother _ => ?_) (by simp [hnone])
        obtain ⟨rest', hrest'⟩ := hother.exists_cons_cons hrest (by omega)
        obtain ⟨reading', hreading', halike⟩ := hwhole other.pos groups _ hother.advance
        rw [read_eq_readGeneral hrest', hreading', Cursor.advance_advance]
        exact ⟨reading', rfl, halike modes⟩
      | counted written hlabel hcounted hsign =>
        refine .counted written hlabel (fun modes groups other hother => ?_) (hshown ▸ hsign)
        obtain ⟨rest', hrest'⟩ := hother.exists_cons_cons hrest (by omega)
        rw [read_eq_readGeneral hrest', ← Cursor.advance_advance]
        exact hcounted other.pos groups _ hother.advance
  · obtain ⟨label, width, n, rfl, rfl, htwo, hread, -⟩ := hat
    refine ⟨n, by omega, rfl, hread.length,
      .fixed (fun modes' groups' other hother _ => ?_) (by simp [Reading.leaf])⟩
    obtain ⟨rest', hrest'⟩ := hother.exists_cons_cons hrest (by omega)
    exact ⟨_, read_recased hrest' (hread.cut groups' other hother), rfl, rfl⟩

end Escape

/-! ## Section 5: Bracket classes -/

/-- A bracket class is read from its own characters, whatever flags are in
    force. -/
theorem Bracket.read_agrees {modes : Modes} {cur after : Cursor} {leaf : Escape.Leaf} {rest : Text}
    (hrest : cur.rest = '[' :: rest) (h : Bracket.read modes cur = .ok (leaf, after)) :
    ∃ n, 0 < n ∧ after = cur.advance n ∧ n ≤ cur.rest.length ∧
      leaf.label.isRepeatable = true ∧ ∀ modes other, cur.Agrees other n →
        ∃ leaf', Bracket.read modes other = .ok (leaf', other.advance n) ∧
          leaf'.label.isRepeatable = true := by
  obtain ⟨n, hpos, hlength, rfl, -, -, hcut⟩ := Bracket.read_cut hrest h
  have hlabel : leaf.label.isRepeatable = true := by
    obtain ⟨_, -, hpair⟩ := Read.bind_eq_ok.mp h
    obtain ⟨rfl, -⟩ := Prod.mk.inj (Except.ok.inj hpair)
    rfl
  refine ⟨n, hpos, rfl, hlength, hlabel, fun modes' other hother => ?_⟩
  -- the members do not depend on the flags
  obtain ⟨⟨members, stop⟩, hmembers, hpair⟩ := Read.bind_eq_ok.mp (hcut other hother)
  obtain ⟨-, rfl⟩ := Prod.mk.inj (Except.ok.inj hpair)
  exact ⟨_, Read.bind_eq_ok.mpr ⟨(members, other.advance n), hmembers, rfl⟩, rfl⟩

end RegexInsight
