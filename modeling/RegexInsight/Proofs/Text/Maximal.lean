import Mathlib
import RegexInsight.Proofs.Text.Run

/-! # Maximal runs

    A text can be cut into uniform runs in many ways, but in one way only if
    neighbours may not be of one kind unless they are marks: no run can then
    be made longer.  This is the splitting of the text, so to show that some
    runs are those of a text it is enough to show that they are uniform, that
    neighbours do not join and that they make up the text. -/

namespace RegexInsight

/-! ## Section 1: Neighbouring runs -/

namespace RunKey

/-- Runs that do not join when they stand side by side. -/
def Apart (a b : RunKey) : Prop := a = b → a.kind = .punct

end RunKey

namespace Run

variable {c : Char} {r next : Run} {runs front back : List Run} {a b : Text}

theorem kind_key (r : Run) : r.key.kind = r.kind := rfl

/-- A character that begins a run of its own does not belong to the run
    behind it. -/
theorem isChain_prepend (h : (runs.map key).IsChain RunKey.Apart) :
    ((prepend c runs).map key).IsChain RunKey.Apart := by
  cases runs with
  | nil => exact .singleton _
  | cons r rest =>
    by_cases hjoin : CharKind.ofChar c = r.kind ∧ CharKind.ofChar c ≠ .punct
    · obtain ⟨hkind, hpunct⟩ := hjoin
      have hkey : key ⟨CharKind.ofChar c, c :: r.text⟩ = key r := by
        simp [key, hkind, hkind ▸ hpunct]
      simpa [prepend, hkind, hkind ▸ hpunct, hkey] using hkind ▸ hkey ▸ h
    · have hown : prepend c (r :: rest) = ⟨.ofChar c, [c]⟩ :: r :: rest := by
        simp only [prepend, Bool.and_eq_true, decide_eq_true_eq]
        exact if_neg hjoin
      rw [hown]
      refine List.isChain_cons_cons.mpr ⟨fun hsame => ?_, h⟩
      by_contra hpunct
      exact hjoin ⟨congrArg RunKey.kind hsame, hpunct⟩

theorem isChain_split (text : Text) : ((split text).map key).IsChain RunKey.Apart := by
  induction text with
  | nil => exact .nil
  | cons c rest ih => exact isChain_prepend ih

/-- A character of another run begins a run of its own. -/
theorem prepend_of_apart {c : Char} (hc : CharKind.ofChar c = r.kind) (htext : r.text = [c])
    (happart : ∀ next ∈ runs.head?, r.key.Apart next.key) : prepend c runs = r :: runs := by
  have hown : r = ⟨.ofChar c, [c]⟩ := by
    rw [hc, ← htext]
  cases runs with
  | nil => rw [hown]; rfl
  | cons next rest =>
    have hjoin : ¬ (CharKind.ofChar c = next.kind ∧ CharKind.ofChar c ≠ .punct) := by
      rintro ⟨hkind, hpunct⟩
      have hsame : r.key = next.key := by
        simp [key, ← hc, ← hkind, hpunct]
      exact hpunct (hc.trans (happart next rfl hsame))
    rw [hown]
    simp only [prepend, Bool.and_eq_true, decide_eq_true_eq]
    exact if_neg hjoin

/-- The characters of a uniform run make up this run before runs that it does
    not join. -/
theorem foldr_prepend (h : r.IsUniform) (happart : ∀ next ∈ runs.head?, r.key.Apart next.key) :
    r.text.foldr prepend runs = r :: runs := by
  obtain ⟨kind, text⟩ := r
  induction text with
  | nil => exact absurd rfl h.nonempty
  | cons c rest ih =>
    have hc : CharKind.ofChar c = kind := h.kinds c List.mem_cons_self
    by_cases hlast : rest = []
    · subst hlast
      exact prepend_of_apart hc rfl happart
    · -- a mark has no second character, so this is no mark
      have hpunct : kind ≠ .punct := by
        intro hmark
        have hsingle := h.single hmark
        simp only [List.length_cons, Nat.add_eq_right, List.length_eq_zero_iff] at hsingle
        exact hlast hsingle
      have hrest : IsUniform ⟨kind, rest⟩ :=
        ⟨hlast, fun d hd => h.kinds d (List.mem_cons_of_mem _ hd), fun hmark => absurd hmark hpunct⟩
      have hkeys : key ⟨kind, rest⟩ = key ⟨kind, c :: rest⟩ := by
        simp [key, hpunct]
      have htail := ih hrest (hkeys ▸ happart)
      rw [List.foldr_cons, htail]
      simp [prepend, hc, hpunct]

/-- Uniform runs that do not join are the runs of the text that they make
    up. -/
theorem split_flatten (huniform : ∀ r ∈ runs, r.IsUniform)
    (hchain : (runs.map key).IsChain RunKey.Apart) : split (runs.map text).flatten = runs := by
  induction runs with
  | nil => rfl
  | cons r rest ih =>
    obtain ⟨hr, hrest⟩ := List.forall_mem_cons.mp huniform
    have htail : split (rest.map text).flatten = rest := ih hrest hchain.tail
    have happart : ∀ next ∈ rest.head?, r.key.Apart next.key := by
      intro next hnext
      apply List.IsChain.rel_head? hchain
      rw [List.head?_map, Option.mem_def.mp hnext]
      rfl
    show ((r.text ++ (rest.map text).flatten).foldr prepend []) = _
    rw [List.foldr_append]
    show r.text.foldr prepend (split (rest.map text).flatten) = _
    rw [htail, foldr_prepend hr happart]

/-! ## Section 2: Decompositions -/

/-- The runs make up the text, each holds what its kind says, and neighbours
    of one kind are marks. -/
structure Decomposes (runs : List Run) (text : Text) : Prop where
  flatten : (runs.map Run.text).flatten = text
  uniform : ∀ r ∈ runs, r.IsUniform
  apart : runs.IsChain fun r next => r.kind = next.kind → r.kind = .punct

/-- Keys other than those of marks are the kinds. -/
theorem apart_key_iff : r.key.Apart next.key ↔ (r.kind = next.kind → r.kind = .punct) := by
  constructor
  · intro happart hkind
    by_contra hpunct
    exact hpunct (happart (by simp [key, ← hkind, hpunct]))
  · exact fun happart hsame => happart (congrArg RunKey.kind hsame)

theorem isChain_key_iff : (runs.map key).IsChain RunKey.Apart ↔
    runs.IsChain fun r next => r.kind = next.kind → r.kind = .punct := by
  rw [List.isChain_map]
  simp only [apart_key_iff]

theorem decomposes_split (text : Text) : Decomposes (split text) text where
  flatten := flatten_split text
  uniform := isUniform_of_mem_split
  apart := isChain_key_iff.mp (isChain_split text)

theorem Decomposes.eq_split (h : Decomposes runs a) : runs = split a := by
  rw [← h.flatten]
  exact (split_flatten h.uniform (isChain_key_iff.mpr h.apart)).symm

theorem decomposes_iff : Decomposes runs a ↔ runs = split a :=
  ⟨Decomposes.eq_split, fun h => h ▸ decomposes_split a⟩

/-- A text can be told from its runs. -/
theorem split_inj : split a = split b ↔ a = b := by
  refine ⟨fun h => ?_, congrArg split⟩
  rw [← flatten_split a, h, flatten_split b]

/-! ## Section 3: From one run to the next -/

/-- A text begins with a run of the kind of its first character. -/
theorem kind_of_head {rest : Text} (h : r ∈ (split (c :: rest)).head?) :
    r.kind = CharKind.ofChar c := by
  rcases prepend_cases c (split rest) with hown | ⟨first, others, -, hkind, -, hjoined⟩
  · obtain rfl := Option.some.inj ((congrArg List.head? hown).symm.trans h)
    rfl
  · obtain rfl := Option.some.inj ((congrArg List.head? hjoined).symm.trans h)
    exact hkind.symm

/-- A mark is a run of its own. -/
theorem split_cons_of_mark {rest : Text} (h : CharKind.ofChar c = .punct) :
    split (c :: rest) = ⟨.punct, [c]⟩ :: split rest := by
  have hown : IsUniform ⟨.punct, [c]⟩ := h ▸ isUniform_singleton c
  exact foldr_prepend hown fun _ _ _ => rfl

/-- Any other character begins a run that goes on to the next change of
    kind. -/
theorem split_cons_of_stretch {rest : Text} (h : CharKind.ofChar c ≠ .punct) :
    split (c :: rest) =
      ⟨.ofChar c, c :: rest.takeWhile fun d => CharKind.ofChar d = .ofChar c⟩ ::
        split (rest.dropWhile fun d => CharKind.ofChar d = .ofChar c) := by
  generalize hsame : rest.takeWhile _ = same
  generalize hbehind : rest.dropWhile _ = behind
  have hkinds : ∀ d ∈ same, CharKind.ofChar d = .ofChar c := by
    subst hsame
    exact fun d hd => of_decide_eq_true (List.mem_takeWhile_imp hd :)
  have huniform : IsUniform ⟨.ofChar c, c :: same⟩ :=
    ⟨List.cons_ne_nil c same, List.forall_mem_cons.mpr ⟨rfl, hkinds⟩, fun hmark => absurd hmark h⟩
  -- the character that ends the stretch is of another kind
  have happart : ∀ next ∈ (split behind).head?, CharKind.ofChar c ≠ next.kind := by
    intro next hnext
    cases behind with
    | nil => exact nomatch hnext
    | cons d others =>
      have hd := List.head?_dropWhile_not (fun d => decide (CharKind.ofChar d = .ofChar c)) rest
      rw [hbehind] at hd
      rw [kind_of_head hnext]
      exact fun hkind => by simp [hkind] at hd
  have hrest : rest = same ++ behind := by
    rw [← hsame, ← hbehind, List.takeWhile_append_dropWhile]
  show (c :: rest).foldr prepend [] = _
  rw [hrest, ← List.cons_append, List.foldr_append]
  exact foldr_prepend huniform fun next hnext hkeys =>
    absurd (congrArg RunKey.kind hkeys) (happart next hnext)

/-! ## Section 4: Texts one behind the other -/

/-- The runs of two texts of which one follows the other: the last run of the
    first text and the first run of the second are one if they are of the same
    kind and no marks. -/
def seam (front back : List Run) : List Run :=
  match front.getLast?, back with
  | some r, next :: rest =>
    if r.kind = next.kind ∧ r.kind ≠ .punct then
      front.dropLast ++ ⟨r.kind, r.text ++ next.text⟩ :: rest
    else front ++ back
  | _, _ => front ++ back

/-- Two runs of one kind that are no marks are one run together. -/
theorem IsUniform.append (hr : r.IsUniform) (hnext : next.IsUniform) (hkind : r.kind = next.kind)
    (hpunct : r.kind ≠ .punct) : IsUniform ⟨r.kind, r.text ++ next.text⟩ where
  nonempty := List.append_ne_nil_of_left_ne_nil hr.nonempty next.text
  kinds := List.forall_mem_append.mpr
    ⟨hr.kinds, fun c hc => (hnext.kinds c hc).trans hkind.symm⟩
  single := fun hmark => absurd hmark hpunct

/-- Decompositions can be put together where no run goes on. -/
theorem Decomposes.append (hfront : Decomposes front a) (hback : Decomposes back b)
    (hseam : ∀ r ∈ front.getLast?, ∀ next ∈ back.head?, r.kind = next.kind → r.kind = .punct) :
    Decomposes (front ++ back) (a ++ b) where
  flatten := by
    rw [List.map_append, List.flatten_append, hfront.flatten, hback.flatten]
  uniform := List.forall_mem_append.mpr ⟨hfront.uniform, hback.uniform⟩
  apart := List.isChain_append.mpr ⟨hfront.apart, hback.apart, hseam⟩

/-- Where a run goes on, its two parts are one run. -/
theorem Decomposes.join {rest : List Run} (hfront : Decomposes (front ++ [r]) a)
    (hback : Decomposes (next :: rest) b) (hkind : r.kind = next.kind) (hpunct : r.kind ≠ .punct) :
    Decomposes (front ++ ⟨r.kind, r.text ++ next.text⟩ :: rest) (a ++ b) where
  flatten := by
    rw [← hfront.flatten, ← hback.flatten]
    simp
  uniform := by
    obtain ⟨hinit, hr⟩ := List.forall_mem_append.mp hfront.uniform
    obtain ⟨hnext, hrest⟩ := List.forall_mem_cons.mp hback.uniform
    have hjoined := (List.forall_mem_singleton.mp hr).append hnext hkind hpunct
    exact List.forall_mem_append.mpr ⟨hinit, List.forall_mem_cons.mpr ⟨hjoined, hrest⟩⟩
  apart := by
    -- only the kinds of runs count, and the joined run has that of its parts
    obtain ⟨hinit, -, hlast⟩ := List.isChain_append.mp hfront.apart
    obtain ⟨hfirst, hrest⟩ := List.isChain_cons.mp hback.apart
    refine List.isChain_append.mpr ⟨hinit, List.isChain_cons.mpr ⟨?_, hrest⟩, ?_⟩
    · exact fun later hlater => hkind ▸ hfirst later hlater
    · rintro earlier hearlier _ ⟨⟩
      exact hlast earlier hearlier r rfl

theorem Decomposes.seam (hfront : Decomposes front a) (hback : Decomposes back b) :
    Decomposes (seam front back) (a ++ b) := by
  unfold Run.seam
  split
  next r next rest hlast =>
    obtain ⟨init, rfl⟩ := List.getLast?_eq_some_iff.mp hlast
    split
    next hjoin =>
      rw [List.dropLast_concat]
      exact hfront.join hback hjoin.1 hjoin.2
    next hjoin =>
      refine hfront.append hback ?_
      rw [hlast]
      rintro _ ⟨⟩ _ ⟨⟩ hkind
      by_contra hpunct
      exact hjoin ⟨hkind, hpunct⟩
  next hends =>
    refine hfront.append hback fun r hr next hnext => ?_
    obtain ⟨rest, rfl⟩ := List.head?_eq_some_iff.mp hnext
    exact absurd rfl (hends r next rest hr)

/-- The runs of a text are its only maximal decomposition.  So texts with the
    same runs are equal, and the runs of two texts one behind the other are
    those of the one and of the other, joined at the seam. -/
theorem split_isMaximal (a b : Text) :
    (∀ runs, Decomposes runs a ↔ runs = split a) ∧ (split a = split b ↔ a = b) ∧
      split (a ++ b) = seam (split a) (split b) :=
  ⟨fun _ => decomposes_iff, split_inj,
    ((decomposes_split a).seam (decomposes_split b)).eq_split.symm⟩

example : split ['a', 'b', '-', '-', '1'] =
    [⟨.letter, ['a', 'b']⟩, ⟨.punct, ['-']⟩, ⟨.punct, ['-']⟩, ⟨.digit, ['1']⟩] := by decide

end Run

end RegexInsight
