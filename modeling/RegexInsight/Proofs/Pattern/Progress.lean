import Mathlib
import RegexInsight.Pattern.Bounds
import RegexInsight.Pattern.Bracket

/-! # Progress of the readers

    Every reader hands on a cursor further along the same text.  `Reaches`
    says that a cursor stands at or behind another one, `Passes` that it
    stands strictly behind it.  Each reader has one lemma that says which
    of the two it guarantees; nothing else about cursors is needed to see
    that reading a pattern comes to an end. -/

namespace RegexInsight

/-! ## Section 1: Outcomes -/

/-- A step that continues another one succeeds exactly when both do. -/
theorem bind_eq_ok_iff {ε α β : Type} {x : Except ε α} {f : α → Except ε β} {b : β} :
    (x >>= f) = .ok b ↔ ∃ a, x = .ok a ∧ f a = .ok b := by
  cases x with
  | error e => simp [bind, Except.bind]
  | ok a => simp [bind, Except.bind]

theorem Read.bind_eq_ok {α β : Type} {x : Read α} {f : α → Read β} {b : β} :
    (x >>= f) = .ok b ↔ ∃ a, x = .ok a ∧ f a = .ok b :=
  bind_eq_ok_iff

@[simp] theorem Read.pure_eq_ok {α : Type} {a b : α} :
    (pure a : Read α) = .ok b ↔ a = b := by
  simp [pure, Except.pure]

@[simp] theorem Read.fail_ne_ok {α : Type} {fault : Fault} {position : Nat} {a : α} :
    (Read.fail fault position : Read α) ≠ .ok a := by
  simp [Read.fail]

/-- A reader behind a guard that fails succeeds exactly when the guard lets
    it. -/
theorem Read.guard_eq_ok {α : Type} {p : Prop} [Decidable p] {fault : Fault}
    {position : Nat} {x : Read α} {a : α} :
    (if p then Read.fail fault position else x) = .ok a ↔ ¬ p ∧ x = .ok a := by
  by_cases hp : p <;> simp [hp]

theorem Read.guard_eq_ok' {α : Type} {p : Prop} [Decidable p] {fault : Fault}
    {position : Nat} {x : Read α} {a : α} :
    (if p then x else Read.fail fault position) = .ok a ↔ p ∧ x = .ok a := by
  by_cases hp : p <;> simp [hp]

/-- Checks in a row succeed exactly when each of them does. -/
theorem forM_eq_ok_iff {ε α : Type} {check : α → Except ε Unit} {items : List α} :
    items.forM check = .ok () ↔ ∀ item ∈ items, check item = .ok () := by
  induction items with
  | nil => exact iff_of_true rfl nofun
  | cons first rest ih =>
    have hcons : (first :: rest).forM check = check first >>= fun _ => rest.forM check := rfl
    rw [hcons, List.forall_mem_cons, ← ih]
    cases check first <;> simp [bind, Except.bind]

/-! ## Section 2: Pairs of characters -/

/-- The text has two characters in a row. -/
def HasPair (a b : Char) (text : Text) : Prop :=
  ∃ before after, text = before ++ a :: b :: after

theorem not_hasPair_singleton (a b c : Char) : ¬ HasPair a b [c] := by
  intro h
  obtain ⟨before, after, heq⟩ := h
  have hlength := congrArg List.length heq
  simp only [List.length_append, List.length_cons, List.length_nil] at hlength
  omega

theorem HasPair.append_left {a b : Char} {tail : Text} (text : Text) (h : HasPair a b tail) :
    HasPair a b (text ++ tail) := by
  obtain ⟨before, after, rfl⟩ := h
  exact ⟨text ++ before, after, (List.append_assoc _ _ _).symm⟩

theorem HasPair.append_right {a b : Char} {text : Text} (tail : Text) (h : HasPair a b text) :
    HasPair a b (text ++ tail) := by
  obtain ⟨before, after, rfl⟩ := h
  exact ⟨before, after ++ tail, by simp⟩

/-- A pair stands at the beginning of a text or behind its first
    character. -/
theorem hasPair_cons_iff {a b c : Char} {text : Text} :
    HasPair a b (c :: text) ↔ c = a ∧ text.head? = some b ∨ HasPair a b text := by
  constructor
  · rintro ⟨before, after, heq⟩
    cases before with
    | nil =>
      obtain ⟨rfl, rfl⟩ := List.cons.inj heq
      exact .inl ⟨rfl, rfl⟩
    | cons d before => exact .inr ⟨before, after, (List.cons.inj heq).2⟩
  · rintro (⟨rfl, hhead⟩ | h)
    · obtain ⟨after, rfl⟩ := List.head?_eq_some_iff.mp hhead
      exact ⟨[], after, rfl⟩
    · exact h.append_left [c]

theorem hasPair_cons {a b c : Char} {text : Text} (h : HasPair a b (c :: text)) (hne : c ≠ a) :
    HasPair a b text :=
  (hasPair_cons_iff.mp h).resolve_left fun hhere => hne hhere.1

theorem hasPair_append {a b : Char} {text tail : Text} (hhead : b ∉ tail.head?)
    (h : HasPair a b (text ++ tail)) : HasPair a b text ∨ HasPair a b tail := by
  obtain ⟨before, after, heq⟩ := h
  rcases List.append_eq_append_iff.mp heq with ⟨found, rfl, hfound⟩ | ⟨found, rfl, hfound⟩
  · exact .inr ⟨found, after, hfound⟩
  · match found with
    | [] => exact .inr ⟨[], after, hfound.symm⟩
    | [c] =>
      -- the pair is not split
      have hsecond : b :: after = tail := (List.cons.inj hfound).2
      rw [← hsecond] at hhead
      exact absurd rfl hhead
    | c :: d :: found =>
      obtain ⟨rfl, hsecond⟩ := List.cons.inj hfound
      obtain ⟨rfl, -⟩ := List.cons.inj hsecond
      exact .inl ⟨before, found, rfl⟩

namespace Cursor

/-! ## Section 3: Places in one text -/

/-- `after` stands in the text of `cur`, at or behind it. -/
def Reaches (cur after : Cursor) : Prop :=
  ∃ n ≤ cur.rest.length, after = cur.advance n

/-- `after` stands in the text of `cur`, strictly behind it. -/
def Passes (cur after : Cursor) : Prop :=
  cur.Reaches after ∧ cur.pos < after.pos

theorem advance_advance (cur : Cursor) (m n : Nat) :
    (cur.advance m).advance n = cur.advance (m + n) := by
  simp [advance, Nat.add_assoc]

@[simp] theorem advance_zero (cur : Cursor) : cur.advance 0 = cur := by
  simp [advance]

@[simp] theorem advance_pos (cur : Cursor) (n : Nat) : (cur.advance n).pos = cur.pos + n := rfl

@[simp] theorem advance_rest (cur : Cursor) (n : Nat) :
    (cur.advance n).rest = cur.rest.drop n := rfl

theorem Reaches.refl (cur : Cursor) : cur.Reaches cur :=
  ⟨0, Nat.zero_le _, by simp⟩

theorem reaches_advance {cur : Cursor} {n : Nat} (h : n ≤ cur.rest.length) :
    cur.Reaches (cur.advance n) :=
  ⟨n, h, rfl⟩

theorem passes_advance {cur : Cursor} {n : Nat} (hpos : 0 < n) (h : n ≤ cur.rest.length) :
    cur.Passes (cur.advance n) :=
  ⟨reaches_advance h, by simp [hpos]⟩

theorem Reaches.trans {a b c : Cursor} (hab : a.Reaches b) (hbc : b.Reaches c) :
    a.Reaches c := by
  obtain ⟨m, hm, rfl⟩ := hab
  obtain ⟨n, hn, rfl⟩ := hbc
  have hlen : n ≤ a.rest.length - m := by simpa using hn
  exact ⟨m + n, by omega, advance_advance a m n⟩

theorem Reaches.pos_le {a b : Cursor} (h : a.Reaches b) : a.pos ≤ b.pos := by
  obtain ⟨n, -, rfl⟩ := h
  simp

/-- What is read and what is left add up to the same text. -/
theorem Reaches.end_eq {a b : Cursor} (h : a.Reaches b) :
    b.pos + b.rest.length = a.pos + a.rest.length := by
  obtain ⟨n, hn, rfl⟩ := h
  simp only [advance_pos, advance_rest, List.length_drop]
  omega

/-- The text between two cursors is as long as they are apart. -/
theorem Reaches.length_take {a b : Cursor} (h : a.Reaches b) :
    (a.rest.take (b.pos - a.pos)).length = b.pos - a.pos := by
  obtain ⟨n, hn, rfl⟩ := h
  rw [advance_pos, List.length_take]
  omega

theorem Passes.reaches {a b : Cursor} (h : a.Passes b) : a.Reaches b := h.1

theorem Passes.trans_reaches {a b c : Cursor} (hab : a.Passes b) (hbc : b.Reaches c) :
    a.Passes c :=
  ⟨hab.1.trans hbc, Nat.lt_of_lt_of_le hab.2 hbc.pos_le⟩

theorem Reaches.trans_passes {a b c : Cursor} (hab : a.Reaches b) (hbc : b.Passes c) :
    a.Passes c :=
  ⟨hab.trans hbc.1, Nat.lt_of_le_of_lt hab.pos_le hbc.2⟩

/-- Passing characters leaves fewer of them to read. -/
theorem Passes.rest_lt {a b : Cursor} (h : a.Passes b) : b.rest.length < a.rest.length := by
  have hend := h.1.end_eq
  have hpos := h.2
  omega

/-- The next character can be passed. -/
theorem passes_next {cur : Cursor} {c : Char} {rest : Text} (h : cur.rest = c :: rest) :
    cur.Passes (cur.advance 1) :=
  passes_advance Nat.one_pos (by simp [h])

/-- The next two characters can be passed. -/
theorem passes_next_two {cur : Cursor} {c d : Char} {rest : Text}
    (h : cur.rest = c :: d :: rest) : cur.Passes (cur.advance 2) :=
  passes_advance Nat.two_pos (by simp [h])

/-! ## Section 4: Searching -/

theorem takeWhile_of_append {p : Char → Bool} {found rest : Text}
    (hfound : ∀ c ∈ found, p c = true) (hstop : ∀ c ∈ rest.head?, p c = false) :
    (found ++ rest).takeWhile p = found := by
  rw [List.takeWhile_append_of_pos hfound]
  cases rest with
  | nil => simp
  | cons c rest => simp [hstop c rfl]

/-- A run reads the characters with a property up to the first one without
    it. -/
theorem run_of_append {cur : Cursor} {p : Char → Bool} {found rest : Text}
    (hrest : cur.rest = found ++ rest) (hfound : ∀ c ∈ found, p c = true)
    (hstop : ∀ c ∈ rest.head?, p c = false) : cur.run p = (found, cur.advance found.length) := by
  simp only [run, hrest, takeWhile_of_append hfound hstop]

theorem run_spec (cur : Cursor) (p : Char → Bool) :
    ∃ found rest, cur.rest = found ++ rest ∧ (∀ c ∈ found, p c = true) ∧
      (∀ c ∈ rest.head?, p c = false) ∧ cur.run p = (found, cur.advance found.length) := by
  refine ⟨cur.rest.takeWhile p, cur.rest.dropWhile p, List.takeWhile_append_dropWhile.symm,
    List.all_eq_true.mp List.all_takeWhile, ?_, rfl⟩
  intro c hc
  have hhead := List.head?_dropWhile_not p cur.rest
  rw [hc] at hhead
  exact hhead

/-- A search finds the text before the next occurrence. -/
theorem upTo?_eq_some_iff {cur after : Cursor} {stop : Char} {found : Text} :
    cur.upTo? stop = some (found, after) ↔
      stop ∉ found ∧ (∃ rest, cur.rest = found ++ stop :: rest) ∧
        after = cur.advance (found.length + 1) := by
  have hbefore : ∀ c ∈ cur.rest.takeWhile (· != stop), (c != stop) = true :=
    List.all_eq_true.mp List.all_takeWhile
  have hnot : stop ∉ cur.rest.takeWhile (· != stop) := fun hmem => by
    simpa using hbefore stop hmem
  simp only [upTo?]
  constructor
  · intro h
    split at h
    next hlt =>
      obtain ⟨rfl, rfl⟩ := Prod.mk.inj (Option.some.inj h)
      refine ⟨hnot, ?_, rfl⟩
      -- the search stopped at a character, which can only be `stop`
      have hsplit := (List.takeWhile_append_dropWhile (p := (· != stop)) (l := cur.rest))
      have hhead := List.head?_dropWhile_not (· != stop) cur.rest
      cases hdrop : cur.rest.dropWhile (· != stop) with
      | nil =>
        rw [hdrop, List.append_nil] at hsplit
        rw [hsplit] at hlt
        exact absurd hlt (Nat.lt_irrefl _)
      | cons c rest =>
        rw [hdrop] at hhead hsplit
        obtain rfl : c = stop := by simpa using hhead
        exact ⟨rest, hsplit.symm⟩
    next => simp at h
  · intro hsplit
    obtain ⟨hfound, ⟨rest, hrest⟩, rfl⟩ := hsplit
    have htake : cur.rest.takeWhile (· != stop) = found := by
      rw [hrest]
      refine takeWhile_of_append (fun c hc => ?_) (by simp)
      exact bne_iff_ne.mpr fun heq => hfound (heq ▸ hc)
    rw [htake, if_pos]
    rw [hrest, List.length_append, List.length_cons]
    omega

theorem passes_of_upTo? {cur after : Cursor} {stop : Char} {found : Text}
    (h : cur.upTo? stop = some (found, after)) : cur.Passes after := by
  obtain ⟨-, ⟨rest, hrest⟩, rfl⟩ := upTo?_eq_some_iff.mp h
  refine passes_advance (Nat.succ_pos _) ?_
  rw [hrest, List.length_append, List.length_cons]
  omega

theorem head?_of_append_cons {a d : Char} {rest found tail : Text}
    (h : d :: rest = found ++ a :: tail) : (found ++ [a]).head? = some d := by
  cases found with
  | nil => rw [(List.cons.inj h).1]; rfl
  | cons e found => rw [(List.cons.inj h).1]; rfl

/-- A search for two characters in a row finds the text before the first
    place that holds both. -/
theorem beforePair?_eq_some_iff {a b : Char} {text found : Text} :
    beforePair? a b text = some found ↔
      (∃ tail, text = found ++ a :: b :: tail) ∧ ¬ HasPair a b (found ++ [a]) := by
  induction text generalizing found with
  | nil => simp [beforePair?]
  | cons c rest ih =>
    cases rest with
    | nil =>
      refine iff_of_false nofun fun h => ?_
      obtain ⟨⟨tail, htail⟩, -⟩ := h
      have hlength := congrArg List.length htail
      simp only [List.length_append, List.length_cons, List.length_nil] at hlength
      omega
    | cons d rest =>
      rw [beforePair?]
      split
      next hpair =>
        obtain ⟨rfl, rfl⟩ : c = a ∧ d = b := by simpa using hpair
        constructor
        · intro h
          obtain rfl := Option.some.inj h
          exact ⟨⟨rest, rfl⟩, not_hasPair_singleton c d c⟩
        · rintro ⟨⟨tail, htail⟩, hfirst⟩
          cases found with
          | nil => rfl
          | cons e found =>
            -- behind any more characters the pair would not be the first one
            obtain ⟨rfl, hmore⟩ := List.cons.inj htail
            exact absurd (hasPair_cons_iff.mpr (.inl ⟨rfl, head?_of_append_cons hmore⟩)) hfirst
      next hpair =>
        have hnone : ¬ (c = a ∧ d = b) := by simpa using hpair
        rw [Option.map_eq_some_iff]
        constructor
        · rintro ⟨inner, hinner, rfl⟩
          obtain ⟨⟨tail, htail⟩, hfirst⟩ := ih.mp hinner
          refine ⟨⟨tail, by rw [htail]; rfl⟩, fun hearlier => ?_⟩
          rcases hasPair_cons_iff.mp hearlier with ⟨hc, hhead⟩ | hlater
          · exact hnone ⟨hc, Option.some.inj ((head?_of_append_cons htail).symm.trans hhead)⟩
          · exact hfirst hlater
        · rintro ⟨⟨tail, htail⟩, hfirst⟩
          cases found with
          | nil =>
            obtain ⟨hc, hmore⟩ := List.cons.inj htail
            exact absurd ⟨hc, (List.cons.inj hmore).1⟩ hnone
          | cons e found =>
            obtain ⟨rfl, hmore⟩ := List.cons.inj htail
            refine ⟨found, ih.mpr ⟨⟨tail, hmore⟩, fun hlater => ?_⟩, rfl⟩
            exact hfirst (hasPair_cons_iff.mpr (.inr hlater))

theorem length_beforePair? {a b : Char} {text found : Text}
    (h : beforePair? a b text = some found) : found.length + 2 ≤ text.length := by
  obtain ⟨⟨tail, rfl⟩, -⟩ := beforePair?_eq_some_iff.mp h
  rw [List.length_append, List.length_cons, List.length_cons]
  omega

theorem upToPair?_eq_some_iff {cur after : Cursor} {a b : Char} {found : Text} :
    cur.upToPair? a b = some (found, after) ↔
      beforePair? a b cur.rest = some found ∧ after = cur.advance (found.length + 2) := by
  simp only [upToPair?, Option.map_eq_some_iff, Prod.mk.injEq]
  constructor
  · intro h
    obtain ⟨text, htext, rfl, rfl⟩ := h
    exact ⟨htext, rfl⟩
  · intro h
    exact ⟨found, h.1, rfl, h.2.symm⟩

theorem passes_of_upToPair? {cur after : Cursor} {a b : Char} {found : Text}
    (h : cur.upToPair? a b = some (found, after)) : cur.Passes after := by
  obtain ⟨hfound, rfl⟩ := upToPair?_eq_some_iff.mp h
  exact passes_advance (by omega) (length_beforePair? hfound)

theorem reaches_run (cur : Cursor) (p : Char → Bool) : cur.Reaches (cur.run p).2 := by
  simp only [run]
  exact reaches_advance (List.takeWhile_sublist p).length_le

theorem passes_of_readName {cur after : Cursor} {terminator : Char} {name : Text}
    (h : cur.readName terminator = .ok (name, after)) : cur.Passes after := by
  simp only [readName] at h
  split at h
  · simp at h
  · next hfound =>
    split at h
    · obtain ⟨-, rfl⟩ : _ ∧ _ := by simpa using h
      exact passes_of_upTo? hfound
    · simp at h

/-- A name that was read may name a group. -/
theorem isGroupName_of_readName {cur after : Cursor} {terminator : Char} {name : Text}
    (h : cur.readName terminator = .ok (name, after)) : isGroupName name = true := by
  simp only [readName] at h
  split at h
  · simp at h
  · split at h
    · next hname =>
      obtain ⟨rfl, -⟩ : _ ∧ _ := by simpa using h
      exact hname
    · simp at h

end Cursor

/-! ## Section 5: Quantifiers -/

namespace Bounds

/-- Written bounds begin with a brace. -/
theorem written?_eq_none {cur : Cursor} {c : Char} {rest : Text} (hrest : cur.rest = c :: rest)
    (hc : c ≠ '{') : written? cur = none := by
  unfold written?
  rw [hrest]
  split
  · next heq => exact absurd (List.cons.inj heq).1 hc
  · rfl

theorem passes_of_written? {cur after : Cursor} {parts : Text × Bool × Text}
    (h : written? cur = some (parts, after)) : cur.Passes after := by
  unfold written? at h
  split at h
  · next rest hrest =>
    obtain ⟨hclose, hsome⟩ := Option.ite_none_right_eq_some.mp h
    obtain ⟨-, rfl⟩ := Prod.mk.inj (Option.some.inj hsome)
    -- the closing brace stands at the cursor behind the upper digits
    have hbrace := eq_of_beq (Bool.and_eq_true_iff.mp hclose).1
    obtain ⟨tail, htail⟩ := List.head?_eq_some_iff.mp hbrace
    refine Cursor.Reaches.trans_passes ?_ (Cursor.passes_next htail)
    refine (Cursor.passes_next hrest).reaches.trans ?_
    refine (Cursor.reaches_run _ isDecimal).trans ?_
    refine Cursor.Reaches.trans ?_ (Cursor.reaches_run _ isDecimal)
    split
    · next hcomma =>
      obtain ⟨rest', hrest'⟩ := List.head?_eq_some_iff.mp (eq_of_beq hcomma)
      exact (Cursor.passes_next hrest').reaches
    · exact Cursor.Reaches.refl _
  · simp at h

theorem passes_of_read? {cur after : Cursor} {bounds : Bounds}
    (h : read? cur = .ok (some (bounds, after))) : cur.Passes after := by
  unfold read? at h
  split at h
  · next hrest =>
    obtain ⟨-, rfl⟩ : _ ∧ _ := by simpa using h
    exact Cursor.passes_next hrest
  · next hrest =>
    obtain ⟨-, rfl⟩ : _ ∧ _ := by simpa using h
    exact Cursor.passes_next hrest
  · next hrest =>
    obtain ⟨-, rfl⟩ : _ ∧ _ := by simpa using h
    exact Cursor.passes_next hrest
  · unfold readBraces at h
    split at h
    · simp at h
    · next hwritten =>
      obtain ⟨bounds', -, hsome⟩ := Read.bind_eq_ok.mp h
      obtain ⟨-, rfl⟩ : _ ∧ _ := by simpa using hsome
      exact passes_of_written? hwritten

end Bounds

theorem QuantifierMode.reaches_read (cur : Cursor) :
    cur.Reaches (QuantifierMode.read cur).2 := by
  unfold QuantifierMode.read
  split
  · next hrest => exact (Cursor.passes_next hrest).reaches
  · next hrest => exact (Cursor.passes_next hrest).reaches
  · exact Cursor.Reaches.refl cur

/-! ## Section 6: Escapes -/

namespace Escape

variable {start width : Nat} {letter : Char} {cur after : Cursor}

/-- The digits of a code stand in braces behind an `x`, or are as many as its
    letter asks for. -/
theorem hexDigits?_eq_some_iff {digits : Text} :
    hexDigits? letter width cur = some (digits, after) ↔
      (letter = 'x' ∧ cur.rest.head? = some '\x7b') ∧
          (cur.advance 1).upTo? '\x7d' = some (digits, after) ∨
        ¬ (letter = 'x' ∧ cur.rest.head? = some '\x7b') ∧
          width ≤ cur.rest.length ∧ digits = cur.rest.take width ∧ after = cur.advance width := by
  by_cases hbrace : letter = 'x' ∧ cur.rest.head? = some '\x7b'
  · simp [hexDigits?, hbrace]
  · have hplain : ¬ (letter == 'x' && cur.rest.head? == some '\x7b') = true := by simpa using hbrace
    simp only [hexDigits?, if_neg hplain, hbrace, not_false_eq_true, true_and, false_and, false_or,
      Option.ite_none_right_eq_some, Option.some.injEq, Prod.mk.injEq, beq_iff_eq,
      List.length_take]
    rw [min_eq_left_iff, eq_comm, @eq_comm _ _ after]

theorem reaches_of_hexDigits? {digits : Text}
    (h : hexDigits? letter width cur = some (digits, after)) : cur.Reaches after := by
  rcases hexDigits?_eq_some_iff.mp h with ⟨⟨-, hhead⟩, hfound⟩ | ⟨-, hwidth, -, rfl⟩
  · obtain ⟨rest, hrest⟩ := List.head?_eq_some_iff.mp hhead
    exact (Cursor.passes_next hrest).reaches.trans (Cursor.passes_of_upTo? hfound).reaches
  · exact Cursor.reaches_advance hwidth

/-- A code is read where there are digits for it, all of them hexadecimal,
    and their number is that of a code point. -/
theorem readHex_eq_ok_iff {code : CodePoint} :
    readHex start letter width cur = .ok (code, after) ↔
      ∃ digits, hexDigits? letter width cur = some (digits, after) ∧ digits ≠ [] ∧
        (∀ d ∈ digits, isHex d = true) ∧ code = valueIn 16 digits ∧ code ≤ maxCodePoint := by
  unfold readHex
  split
  next hnone => simp [hnone]
  next digits after' hdigits =>
    rw [Read.guard_eq_ok, Read.guard_eq_ok, hdigits]
    constructor
    · rintro ⟨hform, hrange, hpair⟩
      obtain ⟨rfl, rfl⟩ := Prod.mk.inj (Except.ok.inj hpair)
      obtain ⟨hsome, hhex⟩ : digits ≠ [] ∧ ∀ d ∈ digits, isHex d = true := by simpa using hform
      exact ⟨digits, rfl, hsome, hhex, rfl, Nat.not_lt.mp hrange⟩
    · rintro ⟨digits', hsame, hsome, hhex, rfl, hle⟩
      obtain ⟨rfl, rfl⟩ := Prod.mk.inj (Option.some.inj hsame)
      exact ⟨by simpa [hsome] using hhex, Nat.not_lt.mpr hle, rfl⟩

/-- A hexadecimal code that was read is a code point. -/
theorem reaches_of_readHex {code : CodePoint}
    (h : readHex start letter width cur = .ok (code, after)) :
    cur.Reaches after ∧ code ≤ maxCodePoint := by
  obtain ⟨digits, hdigits, -, -, -, hle⟩ := readHex_eq_ok_iff.mp h
  exact ⟨reaches_of_hexDigits? hdigits, hle⟩

theorem le_of_octalCode {start code : Nat} {digits : Text}
    (h : octalCode start digits = .ok code) : code ≤ maxCodePoint := by
  obtain ⟨hle, hcode⟩ := Read.guard_eq_ok.mp h
  obtain rfl := Except.ok.inj hcode
  exact Nat.le_trans (Nat.not_lt.mp hle) (by decide)

/-- An octal code that was read is a code point. -/
theorem reaches_of_readOctal {start code : Nat} {first : Char} {cur after : Cursor}
    (h : readOctal start first cur = .ok (code, after)) :
    cur.Reaches after ∧ code ≤ maxCodePoint := by
  unfold readOctal at h
  obtain ⟨code', hcode, hpair⟩ := Read.bind_eq_ok.mp h
  obtain ⟨rfl, rfl⟩ := Prod.mk.inj (Except.ok.inj hpair)
  refine ⟨Cursor.reaches_advance ?_, le_of_octalCode hcode⟩
  exact ((List.takeWhile_sublist _).trans (List.take_sublist _ _)).length_le

/-- The name of a property stands in braces or is one letter. -/
theorem propertyName_eq_ok_iff {name : Text} :
    propertyName start cur = .ok (name, after) ↔
      (∃ rest, cur.rest = '\x7b' :: rest ∧
          (cur.advance 1).upTo? '\x7d' = some (name, after)) ∨
        ∃ c rest, cur.rest = c :: rest ∧ isLetter c = true ∧ name = [c] ∧
          after = cur.advance 1 := by
  constructor
  · intro h
    unfold propertyName at h
    split at h
    next => simp at h
    next c rest hrest =>
      split at h
      next hbrace =>
        split at h
        next => simp at h
        next hfound =>
          obtain rfl := Except.ok.inj h
          exact .inl ⟨rest, by rw [hrest, eq_of_beq hbrace], hfound⟩
      next =>
        obtain ⟨hletter, hpair⟩ := Read.guard_eq_ok'.mp h
        obtain ⟨rfl, rfl⟩ := Prod.mk.inj (Except.ok.inj hpair)
        exact .inr ⟨c, rest, hrest, hletter, rfl, rfl⟩
  · rintro (⟨rest, hrest, hfound⟩ | ⟨c, rest, hrest, hletter, rfl, rfl⟩)
    · simp only [propertyName, hrest, beq_self_eq_true, if_true, hfound]
    · -- a brace is no letter
      have hbrace : ¬ (c == '\x7b') = true := by
        intro h
        rw [eq_of_beq h] at hletter
        exact absurd hletter (by decide +kernel)
      simp only [propertyName, hrest, if_neg hbrace, hletter, if_true]

theorem reaches_of_propertyName {name : Text}
    (h : propertyName start cur = .ok (name, after)) : cur.Reaches after := by
  rcases propertyName_eq_ok_iff.mp h with ⟨rest, hrest, hfound⟩ | ⟨c, rest, hrest, -, -, rfl⟩
  · exact (Cursor.passes_next hrest).reaches.trans (Cursor.passes_of_upTo? hfound).reaches
  · exact (Cursor.passes_next hrest).reaches

theorem reaches_of_readProperty {start : Nat} {negated : Bool} {cur after : Cursor}
    {chars : CharSet} (h : readProperty start negated cur = .ok (chars, after)) :
    cur.Reaches after := by
  unfold readProperty at h
  obtain ⟨⟨written, after'⟩, hname, hrest⟩ := Read.bind_eq_ok.mp h
  obtain ⟨-, hpair⟩ := Read.guard_eq_ok.mp hrest
  obtain ⟨-, rfl⟩ := Prod.mk.inj (Except.ok.inj hpair)
  exact reaches_of_propertyName hname

end Escape

end RegexInsight
