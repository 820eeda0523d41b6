import Mathlib
import RegexInsight.Proofs.Pattern.Progress

/-! # Reading a text that is cut

    A reader looks no further than it has to.  What it reads from a text it
    also reads from any beginning of that text, as long as the characters
    that it took are still there; what follows them may be cut anywhere,
    and may go on with a parenthesis instead.  `Rereads` states this for
    one outcome of a reader, and each reader has one lemma that says so for
    all its outcomes. -/

namespace RegexInsight

/-! ## Section 1: Cut texts -/

/-- The characters found in a text are those found in a beginning of it
    that is long enough. -/
theorem takeWhile_of_begins {p : Char → Bool} {text cut : Text} (h : cut <+: text)
    (hlength : (text.takeWhile p).length ≤ cut.length) : cut.takeWhile p = text.takeWhile p := by
  obtain ⟨tail, rfl⟩ := h
  rw [List.takeWhile_append] at hlength ⊢
  split
  next hall =>
    -- everything in the beginning has the property, and nothing comes after
    rw [if_pos hall, List.length_append] at hlength
    have hnone : tail.takeWhile p = [] := List.length_eq_zero_iff.mp (by omega)
    rw [hnone, List.append_nil]
    exact (List.takeWhile_prefix p).eq_of_length hall
  next => rfl

namespace Cursor

/-- `cut` stands at a beginning of the text at `cur` that has at least `n`
    characters. -/
structure Cut (cur cut : Cursor) (n : Nat) : Prop where
  before : cut.rest <+: cur.rest
  length : n ≤ cut.rest.length

namespace Cut

variable {cur cut : Cursor} {m n : Nat} {found rest : Text} {c d : Char}

theorem mono (h : cur.Cut cut n) (hle : m ≤ n) : cur.Cut cut m :=
  ⟨h.before, Nat.le_trans hle h.length⟩

theorem advance (h : cur.Cut cut (m + n)) : (cur.advance m).Cut (cut.advance m) n where
  before := h.before.drop m
  length := by
    have hlength := h.length
    rw [advance_rest, List.length_drop]
    omega

/-- The text is cut behind its first characters, too, wherever these have
    been read. -/
theorem behind {cut' : Cursor} (h : cur.Cut cut (m + n)) (hrest : cut'.rest = cut.rest.drop m) :
    (cur.advance m).Cut cut' n where
  before := hrest ▸ h.advance.before
  length := hrest ▸ h.advance.length

theorem take (h : cur.Cut cut n) : cut.rest.take n = cur.rest.take n := by
  obtain ⟨tail, htail⟩ := h.before
  rw [← htail, List.take_append_of_le_length h.length]

theorem exists_append (h : cur.Cut cut n) (hrest : cur.rest = found ++ rest)
    (hle : found.length ≤ n) : ∃ rest', cut.rest = found ++ rest' ∧ rest' <+: rest := by
  have hfound : found <+: cut.rest :=
    List.prefix_of_prefix_length_le ⟨rest, hrest.symm⟩ h.before (Nat.le_trans hle h.length)
  obtain ⟨rest', hrest'⟩ := hfound
  refine ⟨rest', hrest'.symm, ?_⟩
  have hbefore := h.before
  rw [← hrest', hrest] at hbefore
  exact (List.prefix_append_right_inj found).mp hbefore

theorem exists_cons (h : cur.Cut cut n) (hrest : cur.rest = c :: rest) (hpos : 0 < n) :
    ∃ rest', cut.rest = c :: rest' ∧ rest' <+: rest := by
  have hsplit : cur.rest = [c] ++ rest := hrest
  exact h.exists_append hsplit hpos

theorem exists_cons_cons (h : cur.Cut cut n) (hrest : cur.rest = c :: d :: rest) (hlt : 1 < n) :
    ∃ rest', cut.rest = c :: d :: rest' ∧ rest' <+: rest := by
  have hsplit : cur.rest = [c, d] ++ rest := hrest
  exact h.exists_append hsplit hlt

end Cut

end Cursor

/-! ## Section 2: Texts that begin alike -/

/-- The first of the two rests of texts that began alike may be exchanged
    for the second: no reader goes on into it. -/
structure EndsAlike (more tail : Text) : Prop where
  head : ∀ c ∈ tail.head?, c = '(' ∨ c = ')'
  /-- The end of a POSIX class is searched for in all that is left. -/
  pair : HasPair ':' ']' tail → HasPair ':' ']' more

/-- The texts at two cursors begin with the same `n` characters or more, and
    may be exchanged behind what they have in common. -/
def Cursor.Agrees (cur other : Cursor) (n : Nat) : Prop :=
  ∃ common more tail, cur.rest = common ++ more ∧ other.rest = common ++ tail ∧
    n ≤ common.length ∧ EndsAlike more tail

theorem endsAlike_nil (more : Text) : EndsAlike more [] where
  head := nofun
  pair := by
    intro hpair
    obtain ⟨before, after, heq⟩ := hpair
    simp at heq

theorem EndsAlike.not_mem {more tail : Text} {p : Char → Bool} (h : EndsAlike more tail)
    (hopen : p '(' = false) (hclose : p ')' = false) : ∀ c ∈ tail.head?, p c = false := by
  intro c hc
  rcases h.head c hc with rfl | rfl
  · exact hopen
  · exact hclose

/-- The characters found in a text are those found in one that begins
    alike. -/
theorem takeWhile_of_common {p : Char → Bool} {common more tail : Text}
    (htail : ∀ c ∈ tail.head?, p c = false)
    (hlength : ((common ++ more).takeWhile p).length ≤ common.length) :
    (common ++ tail).takeWhile p = (common ++ more).takeWhile p := by
  have hcommon : (common ++ more).takeWhile p = common.takeWhile p :=
    (takeWhile_of_begins (List.prefix_append common more) hlength).symm
  rw [hcommon, List.takeWhile_append]
  split
  next hall =>
    -- everything in the common part has the property, and the tail stops it
    have hnone : tail.takeWhile p = [] := by
      cases tail with
      | nil => rfl
      | cons c tail => rw [List.takeWhile_cons, htail c rfl]; rfl
    rw [hnone, List.append_nil]
    exact ((List.takeWhile_prefix p).eq_of_length hall).symm
  next => rfl

theorem Cursor.Cut.agrees {cur cut : Cursor} {n : Nat} (h : cur.Cut cut n) : cur.Agrees cut n := by
  obtain ⟨more, hmore⟩ := h.before
  exact ⟨cut.rest, more, [], hmore.symm, (List.append_nil _).symm, h.length, endsAlike_nil more⟩

namespace Cursor.Agrees

variable {cur other : Cursor} {m n : Nat} {found rest : Text} {c d : Char}

theorem mono (h : cur.Agrees other n) (hle : m ≤ n) : cur.Agrees other m := by
  obtain ⟨common, more, tail, hcur, hother, hlength, hends⟩ := h
  exact ⟨common, more, tail, hcur, hother, Nat.le_trans hle hlength, hends⟩

theorem advance (h : cur.Agrees other (m + n)) : (cur.advance m).Agrees (other.advance m) n := by
  obtain ⟨common, more, tail, hcur, hother, hlength, hends⟩ := h
  have hle : m ≤ common.length := Nat.le_trans (Nat.le_add_right m n) hlength
  refine ⟨common.drop m, more, tail, ?_, ?_, ?_, hends⟩
  · rw [advance_rest, hcur, List.drop_append_of_le_length hle]
  · rw [advance_rest, hother, List.drop_append_of_le_length hle]
  · rw [List.length_drop]
    omega

theorem take (h : cur.Agrees other n) : other.rest.take n = cur.rest.take n := by
  obtain ⟨common, more, tail, hcur, hother, hlength, -⟩ := h
  rw [hcur, hother, List.take_append_of_le_length hlength, List.take_append_of_le_length hlength]

theorem length (h : cur.Agrees other n) : n ≤ other.rest.length := by
  obtain ⟨common, more, tail, -, hother, hlength, -⟩ := h
  rw [hother, List.length_append]
  omega

theorem exists_append (h : cur.Agrees other n) (hrest : cur.rest = found ++ rest)
    (hle : found.length ≤ n) : ∃ rest', other.rest = found ++ rest' := by
  have htake := (h.mono hle).take
  rw [hrest, List.take_left] at htake
  have hsplit := List.take_append_drop found.length other.rest
  rw [htake] at hsplit
  exact ⟨_, hsplit.symm⟩

theorem exists_cons (h : cur.Agrees other n) (hrest : cur.rest = c :: rest) (hpos : 0 < n) :
    ∃ rest', other.rest = c :: rest' := by
  have hsplit : cur.rest = [c] ++ rest := hrest
  exact h.exists_append hsplit hpos

theorem exists_cons_cons (h : cur.Agrees other n) (hrest : cur.rest = c :: d :: rest)
    (hlt : 1 < n) : ∃ rest', other.rest = c :: d :: rest' := by
  have hsplit : cur.rest = [c, d] ++ rest := hrest
  exact h.exists_append hsplit hlt

theorem head? (h : cur.Agrees other n) (hpos : 0 < n) : other.rest.head? = cur.rest.head? := by
  have htake := congrArg List.head? (h.mono hpos).take
  simpa [List.head?_take] using htake

/-- What comes next is the same, or a parenthesis. -/
theorem mem_head? (h : cur.Agrees other n) (hc : c ∈ other.rest.head?) :
    c ∈ cur.rest.head? ∨ c = '(' ∨ c = ')' := by
  obtain ⟨common, more, tail, hcur, hother, -, hends⟩ := h
  cases common with
  | nil =>
    rw [hother, List.nil_append] at hc
    exact .inr (hends.head c hc)
  | cons d common =>
    rw [hother] at hc
    exact .inl (hcur ▸ hc)

/-- The characters found among the next ones are the same. -/
theorem takeWhile_take {p : Char → Bool} {width : Nat} (h : cur.Agrees other n)
    (hopen : p '(' = false) (hclose : p ')' = false)
    (hlength : ((cur.rest.take width).takeWhile p).length ≤ n) :
    (other.rest.take width).takeWhile p = (cur.rest.take width).takeWhile p := by
  obtain ⟨common, more, tail, hcur, hother, hn, hends⟩ := h
  rw [hcur, List.take_append] at hlength ⊢
  rw [hother, List.take_append]
  apply takeWhile_of_common
  · intro c hc
    refine hends.not_mem hopen hclose c ?_
    rw [List.head?_take] at hc
    split at hc
    · simp at hc
    · exact hc
  · have htwo := (List.takeWhile_sublist p
      (l := common.take width ++ more.take (width - common.length))).length_le
    rw [List.length_take]
    simp only [List.length_append, List.length_take] at htwo
    omega

/-- The run of characters is the same. -/
theorem run {p : Char → Bool} {more : Cursor} (h : cur.Agrees other n) (hopen : p '(' = false)
    (hclose : p ')' = false) (hrun : cur.run p = (found, more)) (hlength : found.length ≤ n) :
    other.run p = (found, other.advance found.length) := by
  obtain ⟨rfl, -⟩ := Prod.mk.inj hrun
  obtain ⟨common, more, tail, hcur, hother, hn, hends⟩ := h
  have hsame : other.rest.takeWhile p = cur.rest.takeWhile p := by
    rw [hcur] at hlength ⊢
    rw [hother]
    exact takeWhile_of_common (hends.not_mem hopen hclose) (Nat.le_trans hlength hn)
  simp only [Cursor.run, hsame]

end Cursor.Agrees

/-- A reader, given where its faults point to, reads `a` from `n` characters
    at a cursor, however the text after them goes on. -/
structure Rereads {α : Type} (f : Nat → Cursor → Read (α × Cursor)) (cur : Cursor) (a : α)
    (n : Nat) : Prop where
  length : n ≤ cur.rest.length
  cut : ∀ start cut, cur.Agrees cut n → f start cut = .ok (a, cut.advance n)

namespace Cursor

variable {cur after : Cursor} {found : Text} {stop : Char}

/-! ## Section 3: Searching -/

theorem upTo?_cut (h : cur.upTo? stop = some (found, after)) :
    after = cur.advance (found.length + 1) ∧ found.length + 1 ≤ cur.rest.length ∧
      ∀ cut, cur.Agrees cut (found.length + 1) →
        cut.upTo? stop = some (found, cut.advance (found.length + 1)) := by
  obtain ⟨hstop, ⟨tail, hrest⟩, rfl⟩ := upTo?_eq_some_iff.mp h
  have hsplit : cur.rest = (found ++ [stop]) ++ tail := by rw [hrest, List.append_assoc]; rfl
  have hlength : (found ++ [stop]).length = found.length + 1 := by simp
  refine ⟨rfl, ?_, fun cut hcut => ?_⟩
  · rw [hsplit, List.length_append, hlength]
    omega
  · obtain ⟨tail', htail'⟩ := hcut.exists_append hsplit (Nat.le_of_eq hlength)
    refine upTo?_eq_some_iff.mpr ⟨hstop, ⟨tail', ?_⟩, rfl⟩
    rw [htail', List.append_assoc]
    rfl

theorem readName_cut {name : Text} (h : cur.readName stop = .ok (name, after)) :
    after = cur.advance (name.length + 1) ∧
      Rereads (fun _ cut => cut.readName stop) cur name (name.length + 1) := by
  unfold readName at h
  split at h
  next => simp at h
  next found after' hfound =>
    obtain ⟨hname, hpair⟩ := Read.guard_eq_ok'.mp h
    obtain ⟨rfl, rfl⟩ := Prod.mk.inj (Except.ok.inj hpair)
    obtain ⟨hafter, hlength, hcut⟩ := upTo?_cut hfound
    refine ⟨hafter, hlength, fun start cut h => ?_⟩
    simp only [readName, hcut cut h, hname, if_true]

theorem beforePair?_append {a b : Char} {text : Text} (tail : Text)
    (h : beforePair? a b text = some found) : beforePair? a b (text ++ tail) = some found := by
  obtain ⟨⟨more, rfl⟩, hfirst⟩ := beforePair?_eq_some_iff.mp h
  exact beforePair?_eq_some_iff.mpr ⟨⟨more ++ tail, by simp⟩, hfirst⟩

theorem beforePair?_of_begins {a b : Char} {text cut : Text} (hcut : cut <+: text)
    (h : beforePair? a b text = some found) (hlength : found.length + 2 ≤ cut.length) :
    beforePair? a b cut = some found := by
  obtain ⟨⟨more, rfl⟩, hfirst⟩ := beforePair?_eq_some_iff.mp h
  have hpair : found ++ [a, b] <+: found ++ a :: b :: more := ⟨more, by simp⟩
  obtain ⟨tail, rfl⟩ := List.prefix_of_prefix_length_le hpair hcut (by simpa using hlength)
  exact beforePair?_eq_some_iff.mpr ⟨⟨tail, by simp⟩, hfirst⟩

theorem beforePair?_eq_none_iff {a b : Char} {text : Text} :
    beforePair? a b text = none ↔ ¬ HasPair a b text := by
  constructor
  · intro h hpair
    obtain ⟨before, after, rfl⟩ := hpair
    induction before with
    | nil => simp [beforePair?] at h
    | cons c before ih =>
      obtain ⟨d, rest, hrest⟩ : ∃ d rest, before ++ a :: b :: after = d :: rest := by
        cases before with
        | nil => exact ⟨_, _, rfl⟩
        | cons d before => exact ⟨_, _, rfl⟩
      rw [hrest] at ih
      rw [List.cons_append, hrest, beforePair?] at h
      split at h
      next => simp at h
      next => exact ih (Option.map_eq_none_iff.mp h)
  · intro h
    cases hfound : beforePair? a b text with
    | none => rfl
    | some found =>
      obtain ⟨⟨tail, htail⟩, -⟩ := beforePair?_eq_some_iff.mp hfound
      exact absurd ⟨found, tail, htail⟩ h

theorem Agrees.beforePair? {other : Cursor} {a b : Char}
    (h : beforePair? a b cur.rest = some found) (hagrees : cur.Agrees other (found.length + 2)) :
    beforePair? a b other.rest = some found := by
  obtain ⟨common, more, tail, hcur, hother, hlength, -⟩ := hagrees
  rw [hcur] at h
  rw [hother]
  exact beforePair?_append tail (beforePair?_of_begins (List.prefix_append common more) h hlength)

end Cursor

/-! ## Section 4: Quantifiers -/

namespace Bounds

/-- The written forms of bounds in braces, by their parts. -/
inductive Spells : Text × Bool × Text → Text → Prop where
  | single {low : Text} (hlow : ∀ c ∈ low, isDecimal c = true) (hsome : low ≠ []) :
      Spells (low, false, []) ('\x7b' :: (low ++ ['\x7d']))
  | range {low high : Text} (hlow : ∀ c ∈ low, isDecimal c = true)
      (hhigh : ∀ c ∈ high, isDecimal c = true) (hsome : low ≠ [] ∨ high ≠ []) :
      Spells (low, true, high) ('\x7b' :: (low ++ ',' :: (high ++ ['\x7d'])))

variable {cur after : Cursor} {parts : Text × Bool × Text} {form tail : Text}

theorem isDecimal_brace : ∀ c ∈ ('\x7d' :: tail).head?, isDecimal c = false := by
  intro c hc
  obtain rfl : '\x7d' = c := Option.some.inj hc
  decide +kernel

theorem isDecimal_comma : ∀ c ∈ (',' :: tail).head?, isDecimal c = false := by
  intro c hc
  obtain rfl : ',' = c := Option.some.inj hc
  decide +kernel

theorem length_single (low : Text) :
    ('\x7b' :: (low ++ ['\x7d'])).length = 1 + low.length + 1 := by
  rw [List.length_cons, List.length_append, List.length_singleton]
  omega

theorem length_range (low high : Text) :
    ('\x7b' :: (low ++ ',' :: (high ++ ['\x7d']))).length =
      1 + low.length + 1 + high.length + 1 := by
  simp only [List.length_cons, List.length_append, List.length_nil]
  omega

/-- The parts of bounds are found in their written form. -/
theorem Spells.written? (h : Spells parts form) (hrest : cur.rest = form ++ tail) :
    written? cur = some (parts, cur.advance form.length) := by
  cases h with
  | @single low hlow hsome =>
    have hrest' : cur.rest = '\x7b' :: (low ++ '\x7d' :: tail) := by simp [hrest]
    have hopen : (cur.advance 1).rest = low ++ '\x7d' :: tail := by
      rw [Cursor.advance_rest, hrest']
      rfl
    have hafter : ((cur.advance 1).advance low.length).rest = '\x7d' :: tail := by
      rw [Cursor.advance_rest, hopen, List.drop_left]
    -- behind the digits a second run finds nothing
    have hnothing : ((cur.advance 1).advance low.length).rest = [] ++ '\x7d' :: tail := hafter
    have hrun' := Cursor.run_of_append hnothing nofun isDecimal_brace
    rw [List.length_nil, Cursor.advance_zero] at hrun'
    have hno : (some '\x7d' == some ',') = false := by decide
    have hgiven : low.isEmpty = false := List.isEmpty_eq_false_iff.mpr hsome
    simp only [Bounds.written?, hrest', Cursor.run_of_append hopen hlow isDecimal_brace, hafter,
      List.head?_cons, hno, Bool.false_eq_true, if_false, hrun', hgiven, length_single,
      ← Cursor.advance_advance]
    rfl
  | @range low high hlow hhigh hsome =>
    have hrest' : cur.rest = '\x7b' :: (low ++ ',' :: (high ++ '\x7d' :: tail)) := by
      simp [hrest]
    have hopen : (cur.advance 1).rest = low ++ ',' :: (high ++ '\x7d' :: tail) := by
      rw [Cursor.advance_rest, hrest']
      rfl
    have hafter : ((cur.advance 1).advance low.length).rest =
        ',' :: (high ++ '\x7d' :: tail) := by
      rw [Cursor.advance_rest, hopen, List.drop_left]
    have hbehind : (((cur.advance 1).advance low.length).advance 1).rest =
        high ++ '\x7d' :: tail := by
      rw [Cursor.advance_rest, hafter]
      rfl
    have hclose : ((((cur.advance 1).advance low.length).advance 1).advance high.length).rest =
        '\x7d' :: tail := by
      rw [Cursor.advance_rest, hbehind, List.drop_left]
    have hgiven : (low.isEmpty && high.isEmpty) = false := by
      rw [Bool.and_eq_false_iff, List.isEmpty_eq_false_iff, List.isEmpty_eq_false_iff]
      exact hsome
    simp only [Bounds.written?, hrest', Cursor.run_of_append hopen hlow isDecimal_comma, hafter,
      List.head?_cons, beq_self_eq_true, if_true,
      Cursor.run_of_append hbehind hhigh isDecimal_brace, hclose, hgiven, length_range,
      ← Cursor.advance_advance]
    rfl

/-- Parts that are found are written at the cursor. -/
theorem exists_spells (h : written? cur = some (parts, after)) :
    ∃ form tail, Spells parts form ∧ cur.rest = form ++ tail ∧
      after = cur.advance form.length := by
  unfold Bounds.written? at h
  split at h
  next rest hrest =>
    obtain ⟨low, tail, htail, hlow, hstop, hrun⟩ := (cur.advance 1).run_spec isDecimal
    have hinside : rest = low ++ tail := by
      rw [← htail, Cursor.advance_rest, hrest]
      rfl
    have hafter : ((cur.advance 1).advance low.length).rest = tail := by
      rw [Cursor.advance_rest, htail, List.drop_left]
    simp only [hrun, hafter] at h
    by_cases hcomma : tail.head? = some ','
    · obtain ⟨rest', rfl⟩ := List.head?_eq_some_iff.mp hcomma
      obtain ⟨high, tail', htail', hhigh, -, hrun'⟩ :=
        (((cur.advance 1).advance low.length).advance 1).run_spec isDecimal
      have hclose : ((((cur.advance 1).advance low.length).advance 1).advance high.length).rest =
          tail' := by
        rw [Cursor.advance_rest, htail', List.drop_left]
      have hrest' : rest' = high ++ tail' := by
        rw [← htail', Cursor.advance_rest, hafter]
        rfl
      simp only [beq_self_eq_true, if_true, hrun', hclose, List.head?_cons] at h
      obtain ⟨hguard, hfound⟩ := Option.ite_none_right_eq_some.mp h
      obtain ⟨rfl, rfl⟩ := Prod.mk.inj (Option.some.inj hfound)
      obtain ⟨hbrace, hgiven⟩ := Bool.and_eq_true_iff.mp hguard
      obtain ⟨tail'', rfl⟩ := List.head?_eq_some_iff.mp (eq_of_beq hbrace)
      have hsome : low ≠ [] ∨ high ≠ [] := by
        rw [← List.isEmpty_eq_false_iff, ← List.isEmpty_eq_false_iff, ← Bool.and_eq_false_iff]
        rwa [Bool.not_eq_true'] at hgiven
      refine ⟨_, tail'', .range hlow hhigh hsome, by simp [hrest, hinside, hrest'], ?_⟩
      simp only [length_range, Cursor.advance_advance]
    · -- without a comma the second run finds nothing
      have hnothing : ((cur.advance 1).advance low.length).rest = [] ++ tail := hafter
      have hrun' := Cursor.run_of_append hnothing nofun hstop
      rw [List.length_nil, Cursor.advance_zero] at hrun'
      have hno : (tail.head? == some ',') = false := beq_eq_false_iff_ne.mpr hcomma
      simp only [hno, Bool.false_eq_true, if_false, hrun', hafter] at h
      obtain ⟨hguard, hfound⟩ := Option.ite_none_right_eq_some.mp h
      obtain ⟨rfl, rfl⟩ := Prod.mk.inj (Option.some.inj hfound)
      obtain ⟨hbrace, hgiven⟩ := Bool.and_eq_true_iff.mp hguard
      obtain ⟨tail', rfl⟩ := List.head?_eq_some_iff.mp (eq_of_beq hbrace)
      have hsome : low ≠ [] := by
        intro hnone
        simp [hnone] at hgiven
      refine ⟨_, tail', .single hlow hsome, by simp [hrest, hinside], ?_⟩
      simp only [length_single, Cursor.advance_advance]
  next => simp at h

theorem Spells.exists_cons (h : Spells parts form) : ∃ rest, form = '\x7b' :: rest := by
  cases h with
  | single => exact ⟨_, rfl⟩
  | range => exact ⟨_, rfl⟩

theorem Spells.not_mem {c : Char} (h : Spells parts form) (hdecimal : isDecimal c = false)
    (hmark : c ∉ ['\x7b', ',', '\x7d']) : c ∉ form := by
  simp only [List.mem_cons, List.not_mem_nil, or_false, not_or] at hmark
  have hdigits : ∀ {text : Text}, (∀ d ∈ text, isDecimal d = true) → c ∉ text := by
    intro text htext hmem
    rw [htext c hmem] at hdecimal
    exact Bool.noConfusion hdecimal
  cases h with
  | single hlow => simp [hmark, hdigits hlow]
  | range hlow hhigh => simp [hmark, hdigits hlow, hdigits hhigh]

/-- Where no bounds are written, none are in a text that begins alike. -/
theorem written?_eq_none_of_agrees {other : Cursor} {n : Nat} (hagrees : cur.Agrees other n)
    (h : Bounds.written? cur = none) : Bounds.written? other = none := by
  cases hfound : Bounds.written? other with
  | none => rfl
  | some found =>
    obtain ⟨form, rest, hspells, hrest, -⟩ := exists_spells hfound
    obtain ⟨common, more, tail, hcur, hother, -, hends⟩ := hagrees
    -- bounds have no parenthesis, so they end before the texts part
    have hwithin : ∃ inner, common = form ++ inner := by
      rcases List.append_eq_append_iff.mp (hrest.symm.trans hother) with
        ⟨inner, hinner, -⟩ | ⟨inner, hinner, htail⟩
      · exact ⟨inner, hinner⟩
      · cases inner with
        | nil => exact ⟨[], by rw [hinner, List.append_nil, List.append_nil]⟩
        | cons c inner =>
          have hmem : c ∈ form := by simp [hinner]
          rcases hends.head c (by rw [htail]; rfl) with rfl | rfl
          · exact absurd hmem (hspells.not_mem (by decide +kernel) (by decide))
          · exact absurd hmem (hspells.not_mem (by decide +kernel) (by decide))
    obtain ⟨inner, rfl⟩ := hwithin
    rw [List.append_assoc] at hcur
    rw [hspells.written? hcur] at h
    simp at h

/-- A quantifier is read from its own characters. -/
theorem read?_cut {bounds : Bounds} (h : read? cur = .ok (some (bounds, after))) :
    ∃ n, 0 < n ∧ n ≤ cur.rest.length ∧ after = cur.advance n ∧
      ∀ cut, cur.Agrees cut n → read? cut = .ok (some (bounds, cut.advance n)) := by
  unfold read? at h
  -- the quantifiers of one character
  have hone : ∀ {c : Char} {rest : Text}, cur.rest = c :: rest →
      (∀ cut rest', cut.rest = c :: rest' → read? cut = .ok (some (bounds, cut.advance 1))) →
      after = cur.advance 1 →
      ∃ n, 0 < n ∧ n ≤ cur.rest.length ∧ after = cur.advance n ∧
        ∀ cut, cur.Agrees cut n → read? cut = .ok (some (bounds, cut.advance n)) := by
    intro c rest hrest hread hafter
    refine ⟨1, Nat.one_pos, by simp [hrest], hafter, fun cut hcut => ?_⟩
    obtain ⟨rest', hrest'⟩ := hcut.exists_cons hrest Nat.one_pos
    exact hread cut rest' hrest'
  split at h
  next rest hrest =>
    obtain ⟨rfl, rfl⟩ := Prod.mk.inj (Option.some.inj (Except.ok.inj h))
    exact hone hrest (fun cut rest' hrest' => by simp only [read?, hrest']) rfl
  next rest hrest =>
    obtain ⟨rfl, rfl⟩ := Prod.mk.inj (Option.some.inj (Except.ok.inj h))
    exact hone hrest (fun cut rest' hrest' => by simp only [read?, hrest']) rfl
  next rest hrest =>
    obtain ⟨rfl, rfl⟩ := Prod.mk.inj (Option.some.inj (Except.ok.inj h))
    exact hone hrest (fun cut rest' hrest' => by simp only [read?, hrest']) rfl
  next =>
    unfold readBraces at h
    split at h
    next => simp at h
    next low comma high after' hwritten =>
      obtain ⟨bounds', hbounds, hpair⟩ := Read.bind_eq_ok.mp h
      obtain ⟨rfl, rfl⟩ := Prod.mk.inj (Option.some.inj (Except.ok.inj hpair))
      obtain ⟨form, tail, hspells, hrest, rfl⟩ := exists_spells hwritten
      obtain ⟨inner, rfl⟩ := hspells.exists_cons
      refine ⟨_, Nat.succ_pos _, by simp [hrest], rfl, fun cut hcut => ?_⟩
      obtain ⟨tail', hrest'⟩ := hcut.exists_append hrest (Nat.le_refl _)
      have hbraces : read? cut = readBraces cut := by
        simp only [read?, hrest']
        rfl
      simp only [hbraces, readBraces, hspells.written? hrest', hbounds]
      rfl

/-- Where no quantifier begins, none does in a text that begins alike. -/
theorem read?_eq_none_of_agrees {other : Cursor} {n : Nat} (hagrees : cur.Agrees other n)
    (h : read? cur = .ok none) : read? other = .ok none := by
  unfold read? at h
  split at h
  next => simp at h
  next => simp at h
  next => simp at h
  next hstar hplus hquestion =>
    have hwritten : Bounds.written? cur = none := by
      unfold readBraces at h
      split at h
      next hnone => exact hnone
      next => obtain ⟨_, -, hpair⟩ := Read.bind_eq_ok.mp h; simp at hpair
    -- a mark that is no parenthesis stands in the first text, too
    have hmark : ∀ {c : Char} {rest : Text}, other.rest = c :: rest → c ≠ '(' → c ≠ ')' →
        ∃ rest', cur.rest = c :: rest' := by
      intro c rest hrest hopen hclose
      have hhead := (hagrees.mem_head? (c := c) (by rw [hrest]; rfl)).resolve_right (by
        rw [not_or]
        exact ⟨hopen, hclose⟩)
      exact List.head?_eq_some_iff.mp hhead
    unfold read?
    split
    next rest hrest =>
      obtain ⟨rest', hrest'⟩ := hmark hrest (by decide) (by decide)
      exact absurd hrest' (hstar rest')
    next rest hrest =>
      obtain ⟨rest', hrest'⟩ := hmark hrest (by decide) (by decide)
      exact absurd hrest' (hplus rest')
    next rest hrest =>
      obtain ⟨rest', hrest'⟩ := hmark hrest (by decide) (by decide)
      exact absurd hrest' (hquestion rest')
    next => rw [readBraces, written?_eq_none_of_agrees hagrees hwritten]

end Bounds

/-- The mode of a quantifier is read from its suffix; where there is none,
    there is none in a text that begins alike. -/
theorem QuantifierMode.read_cut {cur after : Cursor} {mode : QuantifierMode}
    (h : QuantifierMode.read cur = (mode, after)) :
    ∃ n, n ≤ cur.rest.length ∧ after = cur.advance n ∧
      ∀ cut, cur.Agrees cut n → QuantifierMode.read cut = (mode, cut.advance n) := by
  unfold QuantifierMode.read at h
  split at h
  next rest hrest =>
    obtain ⟨rfl, rfl⟩ := Prod.mk.inj h
    refine ⟨1, by simp [hrest], rfl, fun cut hcut => ?_⟩
    obtain ⟨rest', hrest'⟩ := hcut.exists_cons hrest Nat.one_pos
    simp only [QuantifierMode.read, hrest']
  next rest hrest =>
    obtain ⟨rfl, rfl⟩ := Prod.mk.inj h
    refine ⟨1, by simp [hrest], rfl, fun cut hcut => ?_⟩
    obtain ⟨rest', hrest'⟩ := hcut.exists_cons hrest Nat.one_pos
    simp only [QuantifierMode.read, hrest']
  next hquestion hplus =>
    obtain ⟨rfl, rfl⟩ := Prod.mk.inj h
    -- a suffix in the other text would stand here as well
    refine ⟨0, Nat.zero_le _, by rw [Cursor.advance_zero], fun cut hcut => ?_⟩
    unfold QuantifierMode.read
    split
    next rest hrest =>
      rcases hcut.mem_head? (c := '?') (by rw [hrest]; rfl) with hhead | hparen
      · obtain ⟨rest', hrest'⟩ := List.head?_eq_some_iff.mp hhead
        exact absurd hrest' (hquestion rest')
      · exact absurd hparen (by decide)
    next rest hrest =>
      rcases hcut.mem_head? (c := '+') (by rw [hrest]; rfl) with hhead | hparen
      · obtain ⟨rest', hrest'⟩ := List.head?_eq_some_iff.mp hhead
        exact absurd hrest' (hplus rest')
      · exact absurd hparen (by decide)
    next => rw [Cursor.advance_zero]

end RegexInsight
