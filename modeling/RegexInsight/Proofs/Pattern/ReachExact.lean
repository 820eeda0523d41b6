import Mathlib
import RegexInsight.Proofs.CharSet.Membership
import RegexInsight.Proofs.Pattern.Language
import RegexInsight.Proofs.Pattern.NormalForm

/-! # Reach is exact

    The reach of a node against its language.  A reach covers a language
    when no word leaves its bounds, and the language attains the reach when
    none of the bounds could be tighter.  Both are kept by every way in
    which a label combines its children, so both hold of every node of a
    parsed pattern; only a bracket class without members attains nothing. -/

namespace RegexInsight

namespace Reach

/-! ## Section 1: Covering and attaining -/

/-- No word of the language leaves the bounds of the reach. -/
structure Covers (r : Reach) (l : Language CodePoint) : Prop where
  min_le : ∀ w ∈ l, r.minWidth ≤ w.length
  le_max : ∀ w ∈ l, ∀ high, r.maxWidth = some high → w.length ≤ high
  chars : ∀ w ∈ l, ∀ c ∈ w, r.chars.contains c = true
  first : ∀ w ∈ l, ∀ c, w.head? = some c → r.first.contains c = true

/-- Every bound of the reach is met by some word of the language. -/
structure Attains (r : Reach) (l : Language CodePoint) : Prop where
  min : ∃ w ∈ l, w.length = r.minWidth
  max : ∀ high, r.maxWidth = some high → ∃ w ∈ l, w.length = high
  unbounded : r.maxWidth = none → ∀ n, ∃ w ∈ l, n ≤ w.length
  chars : ∀ c, r.chars.contains c = true → ∃ w ∈ l, c ∈ w
  first : ∀ c, r.first.contains c = true → ∃ w ∈ l, w.head? = some c

variable {r r' : Reach} {l l' : Language CodePoint}

theorem Attains.exists_mem (h : r.Attains l) : ∃ w, w ∈ l := by
  obtain ⟨w, hw, -⟩ := h.min
  exact ⟨w, hw⟩

/-! ## Section 2: Leaves -/

theorem covers_nothing : nothing.Covers 1 where
  min_le _ _ := Nat.zero_le _
  le_max w hw high hhigh := by
    obtain rfl := (Language.mem_one w).mp hw
    exact Nat.zero_le high
  chars w hw c hc := by
    obtain rfl := (Language.mem_one w).mp hw
    exact absurd hc List.not_mem_nil
  first w hw c hc := by
    obtain rfl := (Language.mem_one w).mp hw
    simp at hc

theorem attains_nothing (h : [] ∈ l) : nothing.Attains l where
  min := ⟨[], h, rfl⟩
  max _ hhigh := ⟨[], h, Option.some.inj hhigh⟩
  unbounded := nofun
  chars := nofun
  first := nofun

theorem covers_one (a : CharSet) : (one a).Covers a.language where
  min_le w hw := by
    obtain ⟨c, -, rfl⟩ := hw
    exact Nat.le_refl 1
  le_max w hw high hhigh := by
    obtain ⟨c, -, rfl⟩ := hw
    exact Nat.le_of_eq (Option.some.inj hhigh)
  chars w hw c hc := by
    obtain ⟨c', hc', rfl⟩ := hw
    exact List.mem_singleton.mp hc ▸ hc'
  first w hw c hc := by
    obtain ⟨c', hc', rfl⟩ := hw
    exact Option.some.inj hc ▸ hc'

/-- A set with a member attains its bounds. -/
theorem attains_one {a : CharSet} (h : ∃ c, a.contains c = true) : (one a).Attains a.language := by
  obtain ⟨c, hc⟩ := h
  have hword : ∀ {c : CodePoint}, a.contains c = true → [c] ∈ a.language :=
    fun hc => ⟨_, hc, rfl⟩
  exact {
    min := ⟨[c], hword hc, rfl⟩
    max := fun _ hhigh => ⟨[c], hword hc, Option.some.inj hhigh⟩
    unbounded := nofun
    chars := fun c' hc' => ⟨[c'], hword hc', List.mem_singleton_self c'⟩
    first := fun c' hc' => ⟨[c'], hword hc', rfl⟩ }

theorem covers_anything : anything.Covers anyWord where
  min_le _ _ := Nat.zero_le _
  le_max := nofun
  chars _ hw c hc := CharSet.contains_everything.mpr (hw c hc)
  first _ hw c hc := CharSet.contains_everything.mpr (hw c (List.mem_of_mem_head? hc))

theorem attains_anything : anything.Attains anyWord := by
  have hword : ∀ {c : CodePoint}, CharSet.everything.contains c = true → [c] ∈ anyWord :=
    fun hc c' hc' => List.mem_singleton.mp hc' ▸ CharSet.contains_everything.mp hc
  exact {
    min := ⟨[], nofun, rfl⟩
    max := nofun
    unbounded := fun _ n =>
      ⟨List.replicate n 0, fun c hc => List.eq_of_mem_replicate hc ▸ Nat.zero_le _,
        Nat.le_of_eq List.length_replicate.symm⟩
    chars := fun c hc => ⟨[c], hword hc, List.mem_singleton_self c⟩
    first := fun c hc => ⟨[c], hword hc, rfl⟩ }

/-! ## Section 3: Sequences -/

section Sequence

variable {rest : List Reach} {c : CodePoint}

theorem minWidth_sequence_cons :
    (sequence (r :: rest)).minWidth = r.minWidth + (sequence rest).minWidth := rfl

theorem maxWidth_sequence_cons :
    (sequence (r :: rest)).maxWidth =
      r.maxWidth.bind fun a => (sequence rest).maxWidth.map (a + ·) := by
  cases h : r.maxWidth <;> simp [sequence, sumWidths, h]

theorem contains_chars_sequence_cons :
    (sequence (r :: rest)).chars.contains c = true ↔
      r.chars.contains c = true ∨ (sequence rest).chars.contains c = true := by
  simp [sequence, CharSet.contains_unionAll]

/-- A sequence starts with its first item, or further on when that one can
    be empty. -/
theorem contains_first_sequence_cons :
    (sequence (r :: rest)).first.contains c = true ↔
      r.first.contains c = true ∨ r.minWidth = 0 ∧ (sequence rest).first.contains c = true := by
  simp only [sequence, firstOfSequence]
  split
  next hpos => simp [Nat.pos_iff_ne_zero.mp hpos]
  next hpos => simp [Nat.eq_zero_of_not_pos hpos, CharSet.contains_union]

theorem Covers.cons (h : r.Covers l) (hrest : (sequence rest).Covers l') :
    (sequence (r :: rest)).Covers (l * l') where
  min_le w hw := by
    obtain ⟨a, ha, b, hb, rfl⟩ := Language.mem_mul.mp hw
    rw [minWidth_sequence_cons, List.length_append]
    exact Nat.add_le_add (h.min_le a ha) (hrest.min_le b hb)
  le_max w hw high hhigh := by
    obtain ⟨a, ha, b, hb, rfl⟩ := Language.mem_mul.mp hw
    rw [maxWidth_sequence_cons] at hhigh
    obtain ⟨i, hi, hsum⟩ := Option.bind_eq_some_iff.mp hhigh
    obtain ⟨j, hj, rfl⟩ := Option.map_eq_some_iff.mp hsum
    rw [List.length_append]
    exact Nat.add_le_add (h.le_max a ha i hi) (hrest.le_max b hb j hj)
  chars w hw c hc := by
    obtain ⟨a, ha, b, hb, rfl⟩ := Language.mem_mul.mp hw
    refine contains_chars_sequence_cons.mpr ?_
    exact (List.mem_append.mp hc).imp (h.chars a ha c) (hrest.chars b hb c)
  first w hw c hc := by
    obtain ⟨a, ha, b, hb, rfl⟩ := Language.mem_mul.mp hw
    refine contains_first_sequence_cons.mpr ?_
    cases a with
    | nil => exact .inr ⟨Nat.le_zero.mp (h.min_le [] ha), hrest.first b hb c hc⟩
    | cons d a => exact .inl (h.first (d :: a) ha c hc)

theorem Attains.cons (h : r.Attains l) (hrest : (sequence rest).Attains l') :
    (sequence (r :: rest)).Attains (l * l') where
  min := by
    obtain ⟨a, ha, hlength⟩ := h.min
    obtain ⟨b, hb, hlength'⟩ := hrest.min
    exact ⟨a ++ b, Language.append_mem_mul ha hb, by
      rw [List.length_append, hlength, hlength', minWidth_sequence_cons]⟩
  max high hhigh := by
    rw [maxWidth_sequence_cons] at hhigh
    obtain ⟨i, hi, hsum⟩ := Option.bind_eq_some_iff.mp hhigh
    obtain ⟨j, hj, rfl⟩ := Option.map_eq_some_iff.mp hsum
    obtain ⟨a, ha, rfl⟩ := h.max i hi
    obtain ⟨b, hb, rfl⟩ := hrest.max j hj
    exact ⟨a ++ b, Language.append_mem_mul ha hb, List.length_append⟩
  unbounded hnone n := by
    -- the long word comes from whichever side is unbounded
    have hside : (∃ a ∈ l, n ≤ a.length) ∨ ∃ b ∈ l', n ≤ b.length := by
      rw [maxWidth_sequence_cons] at hnone
      cases hmax : r.maxWidth with
      | none => exact .inl (h.unbounded hmax n)
      | some i =>
        rw [hmax, Option.bind_some, Option.map_eq_none_iff] at hnone
        exact .inr (hrest.unbounded hnone n)
    rcases hside with ⟨a, ha, hlong⟩ | ⟨b, hb, hlong⟩
    · obtain ⟨b, hb⟩ := hrest.exists_mem
      exact ⟨a ++ b, Language.append_mem_mul ha hb, by rw [List.length_append]; omega⟩
    · obtain ⟨a, ha⟩ := h.exists_mem
      exact ⟨a ++ b, Language.append_mem_mul ha hb, by rw [List.length_append]; omega⟩
  chars c hc := by
    rcases contains_chars_sequence_cons.mp hc with hc | hc
    · obtain ⟨a, ha, hmem⟩ := h.chars c hc
      obtain ⟨b, hb⟩ := hrest.exists_mem
      exact ⟨a ++ b, Language.append_mem_mul ha hb, List.mem_append_left b hmem⟩
    · obtain ⟨a, ha⟩ := h.exists_mem
      obtain ⟨b, hb, hmem⟩ := hrest.chars c hc
      exact ⟨a ++ b, Language.append_mem_mul ha hb, List.mem_append_right a hmem⟩
  first c hc := by
    rcases contains_first_sequence_cons.mp hc with hc | ⟨hzero, hc⟩
    · obtain ⟨a, ha, hhead⟩ := h.first c hc
      obtain ⟨b, hb⟩ := hrest.exists_mem
      exact ⟨a ++ b, Language.append_mem_mul ha hb, by rw [List.head?_append, hhead]; rfl⟩
    · obtain ⟨a, ha, hlength⟩ := h.min
      obtain rfl := List.eq_nil_of_length_eq_zero (hlength.trans hzero)
      obtain ⟨b, hb, hhead⟩ := hrest.first c hc
      exact ⟨b, Language.append_mem_mul ha hb, hhead⟩

end Sequence

theorem sequence_nil : Reach.sequence [] = nothing := by
  simp [Reach.sequence, nothing, firstOfSequence, sumWidths, CharSet.unionAll,
    CharSet.ofIntervals, CharSet.fuseAll, CharSet.empty]

/-- The items of a sequence each cover their language. -/
theorem Covers.sequence {items : List Reach} {languages : List (Language CodePoint)}
    (h : List.Forall₂ Covers items languages) : (sequence items).Covers languages.prod := by
  induction h with
  | nil => exact sequence_nil ▸ covers_nothing
  | cons hitem _ ih => exact hitem.cons ih

theorem Attains.sequence {items : List Reach} {languages : List (Language CodePoint)}
    (h : List.Forall₂ Attains items languages) : (sequence items).Attains languages.prod := by
  induction h with
  | nil => exact sequence_nil ▸ attains_nothing Language.nil_mem_one
  | cons hitem _ ih => exact hitem.cons ih

/-! ## Section 4: Choices -/

section Choice

theorem leastWidth_spec {widths : List Nat} (hsome : widths ≠ []) :
    leastWidth widths ∈ widths ∧ ∀ w ∈ widths, leastWidth widths ≤ w := by
  match widths with
  | [] => exact absurd rfl hsome
  | w :: rest => exact List.min?_eq_some_iff.mp List.min?_cons'

/-- An upper bound of all is above each of them, and is one of them. -/
theorem maxWidths_eq_some {widths : List (Option Nat)} {high : Nat}
    (h : maxWidths widths = some high) :
    (∀ w ∈ widths, ∃ k ≤ high, w = some k) ∧ (widths ≠ [] → some high ∈ widths) := by
  induction widths generalizing high with
  | nil => exact ⟨nofun, fun hsome => absurd rfl hsome⟩
  | cons w rest ih =>
    cases w with
    | none => simp [maxWidths] at h
    | some w =>
      obtain ⟨k, hk, rfl⟩ := Option.map_eq_some_iff.mp h
      obtain ⟨hbelow, hmem⟩ := ih hk
      refine ⟨List.forall_mem_cons.mpr ⟨⟨w, Nat.le_max_left w k, rfl⟩, ?_⟩, fun _ => ?_⟩
      · intro other hother
        obtain ⟨i, hi, rfl⟩ := hbelow other hother
        exact ⟨i, hi.trans (Nat.le_max_right w k), rfl⟩
      · -- the bound is that of the first or of the rest
        rcases Nat.le_total k w with hle | hle
        · rw [Nat.max_eq_left hle]
          exact List.mem_cons_self
        · rw [Nat.max_eq_right hle]
          cases rest with
          | nil =>
            obtain rfl := Option.some.inj hk
            obtain rfl := Nat.le_zero.mp hle
            exact List.mem_cons_self
          | cons _ _ => exact List.mem_cons_of_mem _ (hmem (List.cons_ne_nil _ _))

theorem none_mem_of_maxWidths {widths : List (Option Nat)} (h : maxWidths widths = none) :
    none ∈ widths := by
  induction widths with
  | nil => simp [maxWidths] at h
  | cons w rest ih =>
    cases w with
    | none => exact List.mem_cons_self
    | some w => exact List.mem_cons_of_mem _ (ih (Option.map_eq_none_iff.mp h))

/-- Of two lists side by side, each member on the right has one on the
    left. -/
theorem exists_beside {α β : Type} {R : α → β → Prop} {as : List α} {bs : List β}
    (h : List.Forall₂ R as bs) {b : β} (hb : b ∈ bs) : ∃ a ∈ as, R a b := by
  induction h with
  | nil => exact absurd hb List.not_mem_nil
  | cons hfirst _ ih =>
    rcases List.mem_cons.mp hb with rfl | hb
    · exact ⟨_, List.mem_cons_self, hfirst⟩
    · obtain ⟨a, ha, hR⟩ := ih hb
      exact ⟨a, List.mem_cons_of_mem _ ha, hR⟩

variable {branches : List Reach} {languages : List (Language CodePoint)}

/-- What some branch covers lies within the bounds of the choice. -/
theorem Covers.choice (h : List.Forall₂ Covers branches languages) :
    (choice branches).Covers languages.sum := by
  -- every word comes from a branch
  have hbranch : ∀ w ∈ languages.sum, ∃ r ∈ branches, ∃ l, w ∈ l ∧ r.Covers l := by
    intro w hw
    obtain ⟨l, hl, hword⟩ := mem_sum.mp hw
    obtain ⟨r, hr, hcovers⟩ := exists_beside h hl
    exact ⟨r, hr, l, hword, hcovers⟩
  constructor
  case min_le =>
    intro w hw
    obtain ⟨r, hr, l, hword, hcovers⟩ := hbranch w hw
    have hmem : r.minWidth ∈ branches.map minWidth := List.mem_map_of_mem hr
    exact ((leastWidth_spec (List.ne_nil_of_mem hmem)).2 _ hmem).trans (hcovers.min_le w hword)
  case le_max =>
    intro w hw high hhigh
    obtain ⟨r, hr, l, hword, hcovers⟩ := hbranch w hw
    obtain ⟨k, hk, hmax⟩ := (maxWidths_eq_some hhigh).1 r.maxWidth (List.mem_map_of_mem hr)
    exact (hcovers.le_max w hword k hmax).trans hk
  case chars =>
    intro w hw c hc
    obtain ⟨r, hr, l, hword, hcovers⟩ := hbranch w hw
    exact CharSet.contains_unionAll.mpr
      ⟨r.chars, List.mem_map_of_mem hr, hcovers.chars w hword c hc⟩
  case first =>
    intro w hw c hc
    obtain ⟨r, hr, l, hword, hcovers⟩ := hbranch w hw
    exact CharSet.contains_unionAll.mpr
      ⟨r.first, List.mem_map_of_mem hr, hcovers.first w hword c hc⟩

theorem Attains.choice (hsome : branches ≠ []) (h : List.Forall₂ Attains branches languages) :
    (choice branches).Attains languages.sum := by
  -- every branch attains its bounds with words of the union
  have hbranch : ∀ r ∈ branches, ∃ l, (∀ w ∈ l, w ∈ languages.sum) ∧ r.Attains l := by
    intro r hr
    obtain ⟨l, hl, hattains⟩ := exists_beside h.flip hr
    exact ⟨l, fun w hw => mem_sum.mpr ⟨l, hl, hw⟩, hattains⟩
  constructor
  case min =>
    have hwidths : branches.map minWidth ≠ [] := mt List.map_eq_nil_iff.mp hsome
    obtain ⟨r, hr, hleast⟩ := List.mem_map.mp (leastWidth_spec hwidths).1
    obtain ⟨l, hsub, hattains⟩ := hbranch r hr
    obtain ⟨w, hw, hlength⟩ := hattains.min
    exact ⟨w, hsub w hw, hlength.trans hleast⟩
  case max =>
    intro high hhigh
    have hwidths : branches.map maxWidth ≠ [] := mt List.map_eq_nil_iff.mp hsome
    obtain ⟨r, hr, hmax⟩ := List.mem_map.mp ((maxWidths_eq_some hhigh).2 hwidths)
    obtain ⟨l, hsub, hattains⟩ := hbranch r hr
    obtain ⟨w, hw, hlength⟩ := hattains.max high hmax
    exact ⟨w, hsub w hw, hlength⟩
  case unbounded =>
    intro hnone n
    obtain ⟨r, hr, hmax⟩ := List.mem_map.mp (none_mem_of_maxWidths hnone)
    obtain ⟨l, hsub, hattains⟩ := hbranch r hr
    obtain ⟨w, hw, hlong⟩ := hattains.unbounded hmax n
    exact ⟨w, hsub w hw, hlong⟩
  case chars =>
    intro c hc
    obtain ⟨a, ha, hc⟩ := CharSet.contains_unionAll.mp hc
    obtain ⟨r, hr, rfl⟩ := List.mem_map.mp ha
    obtain ⟨l, hsub, hattains⟩ := hbranch r hr
    obtain ⟨w, hw, hmem⟩ := hattains.chars c hc
    exact ⟨w, hsub w hw, hmem⟩
  case first =>
    intro c hc
    obtain ⟨a, ha, hc⟩ := CharSet.contains_unionAll.mp hc
    obtain ⟨r, hr, rfl⟩ := List.mem_map.mp ha
    obtain ⟨l, hsub, hattains⟩ := hbranch r hr
    obtain ⟨w, hw, hhead⟩ := hattains.first c hc
    exact ⟨w, hsub w hw, hhead⟩

end Choice

/-! ## Section 5: Repetition -/

section Repetition

/-- A body some number of times. -/
def power (r : Reach) (n : Nat) : Reach :=
  .sequence (List.replicate n r)

theorem power_zero (r : Reach) : r.power 0 = nothing :=
  sequence_nil

theorem power_succ (r : Reach) (n : Nat) :
    r.power (n + 1) = .sequence (r :: List.replicate n r) := rfl

theorem Covers.power (h : r.Covers l) (n : Nat) : (r.power n).Covers (l ^ n) := by
  induction n with
  | zero =>
    rw [pow_zero, power_zero]
    exact covers_nothing
  | succ n ih =>
    rw [pow_succ']
    exact h.cons ih

theorem Attains.power (h : r.Attains l) (n : Nat) : (r.power n).Attains (l ^ n) := by
  induction n with
  | zero =>
    rw [pow_zero, power_zero]
    exact attains_nothing Language.nil_mem_one
  | succ n ih =>
    rw [pow_succ']
    exact h.cons ih

theorem minWidth_power (r : Reach) (n : Nat) : (r.power n).minWidth = r.minWidth * n := by
  induction n with
  | zero => rfl
  | succ n ih =>
    have hrest : (Reach.sequence (List.replicate n r)).minWidth = r.minWidth * n := ih
    rw [power_succ, minWidth_sequence_cons, hrest, Nat.mul_succ, Nat.add_comm]

theorem maxWidth_power_of_some {width : Nat} (h : r.maxWidth = some width) (n : Nat) :
    (r.power n).maxWidth = some (width * n) := by
  induction n with
  | zero => rfl
  | succ n ih =>
    have hrest : (Reach.sequence (List.replicate n r)).maxWidth = some (width * n) := ih
    rw [power_succ, maxWidth_sequence_cons, h, hrest, Nat.mul_succ, Nat.add_comm]
    rfl

theorem maxWidth_power_of_none (h : r.maxWidth = none) (n : Nat) :
    (r.power (n + 1)).maxWidth = none := by
  rw [power_succ, maxWidth_sequence_cons, h]
  rfl

theorem contains_chars_power {n : Nat} {c : CodePoint} :
    (r.power (n + 1)).chars.contains c = true ↔ r.chars.contains c = true := by
  induction n with
  | zero => simp [power, contains_chars_sequence_cons, sequence_nil, nothing]
  | succ n ih =>
    have hrest : (Reach.sequence (List.replicate (n + 1) r)).chars.contains c = true ↔ _ := ih
    rw [power_succ, contains_chars_sequence_cons, hrest, or_self]

theorem contains_first_power {n : Nat} {c : CodePoint} :
    (r.power (n + 1)).first.contains c = true ↔ r.first.contains c = true := by
  induction n with
  | zero => simp [power, contains_first_sequence_cons, sequence_nil, nothing]
  | succ n ih =>
    have hrest : (Reach.sequence (List.replicate (n + 1) r)).first.contains c = true ↔ _ := ih
    rw [power_succ, contains_first_sequence_cons, hrest]
    exact or_iff_left_of_imp And.right

variable {bounds : Bounds}

theorem repeated_of_zero (h : bounds.max = some 0) : repeated bounds r = nothing :=
  if_pos h

theorem chars_repeated (h : bounds.max ≠ some 0) : (repeated bounds r).chars = r.chars := by
  rw [repeated, if_neg h]

theorem first_repeated (h : bounds.max ≠ some 0) : (repeated bounds r).first = r.first := by
  rw [repeated, if_neg h]

theorem minWidth_repeated (h : bounds.max ≠ some 0) :
    (repeated bounds r).minWidth = r.minWidth * bounds.min := by
  rw [repeated, if_neg h]

/-- An upper bound of a repetition comes from a body that stays empty, or
    from the bounds of both. -/
theorem maxWidth_repeated_eq_some (hmax : bounds.max ≠ some 0) {high : Nat}
    (h : (repeated bounds r).maxWidth = some high) :
    (r.maxWidth = some 0 ∧ high = 0) ∨
      ∃ times width, bounds.max = some times ∧ r.maxWidth = some width ∧ high = width * times := by
  rw [repeated, if_neg hmax] at h
  dsimp only at h
  split at h
  next hzero => exact .inl ⟨hzero, (Option.some.inj h).symm⟩
  next =>
    split at h
    next times width htimes hwidth =>
      exact .inr ⟨times, width, htimes, hwidth, (Option.some.inj h).symm⟩
    next => simp at h

theorem maxWidth_repeated_eq_none (hmax : bounds.max ≠ some 0)
    (h : (repeated bounds r).maxWidth = none) :
    r.maxWidth ≠ some 0 ∧ (bounds.max = none ∨ r.maxWidth = none) := by
  rw [repeated, if_neg hmax] at h
  dsimp only at h
  split at h
  next => simp at h
  next hzero =>
    refine ⟨hzero, ?_⟩
    split at h
    next => simp at h
    next hnot =>
      cases hb : bounds.max with
      | none => exact .inl rfl
      | some times =>
        cases hw : r.maxWidth with
        | none => exact .inr rfl
        | some width => exact absurd hw (hnot times width hb)

theorem Covers.repeated (h : r.Covers l) (bounds : Bounds) :
    (repeated bounds r).Covers (bounds.language l) := by
  by_cases hmax : bounds.max = some 0
  · -- nothing is repeated, whatever the body can match
    have hword : ∀ w ∈ bounds.language l, w ∈ (1 : Language CodePoint) := by
      intro w hword
      obtain ⟨n, -, hn, hw⟩ := hword
      obtain rfl := Nat.le_zero.mp (hn 0 hmax)
      rwa [pow_zero] at hw
    rw [repeated_of_zero hmax]
    exact {
      min_le := fun w hw => covers_nothing.min_le w (hword w hw)
      le_max := fun w hw => covers_nothing.le_max w (hword w hw)
      chars := fun w hw => covers_nothing.chars w (hword w hw)
      first := fun w hw => covers_nothing.first w (hword w hw) }
  · -- a word of the repetition is a word of some power of the body
    constructor
    case min_le =>
      intro w hword
      obtain ⟨n, hmin, -, hw⟩ := hword
      have hlength := (h.power n).min_le w hw
      rw [minWidth_power] at hlength
      rw [minWidth_repeated hmax]
      exact (Nat.mul_le_mul_left _ hmin).trans hlength
    case le_max =>
      intro w hword high hhigh
      obtain ⟨n, -, hn, hw⟩ := hword
      rcases maxWidth_repeated_eq_some hmax hhigh with
        ⟨hzero, rfl⟩ | ⟨times, width, htimes, hwidth, rfl⟩
      · have hlength := (h.power n).le_max w hw _ (maxWidth_power_of_some hzero n)
        rwa [Nat.zero_mul] at hlength
      · have hlength := (h.power n).le_max w hw _ (maxWidth_power_of_some hwidth n)
        exact hlength.trans (Nat.mul_le_mul_left _ (hn times htimes))
    case chars =>
      intro w hword c hc
      obtain ⟨n, -, -, hw⟩ := hword
      rw [chars_repeated hmax]
      cases n with
      | zero => exact absurd hc (((Language.mem_one w).mp hw).symm ▸ List.not_mem_nil)
      | succ n => exact contains_chars_power.mp ((h.power (n + 1)).chars w hw c hc)
    case first =>
      intro w hword c hc
      obtain ⟨n, -, -, hw⟩ := hword
      rw [first_repeated hmax]
      cases n with
      | zero =>
        obtain rfl := (Language.mem_one w).mp hw
        simp at hc
      | succ n => exact contains_first_power.mp ((h.power (n + 1)).first w hw c hc)

theorem Attains.repeated (h : r.Attains l) (hbounds : bounds.Ordered) :
    (repeated bounds r).Attains (bounds.language l) := by
  -- the least number of repetitions, and the least that is not zero
  have hleast : ∀ w ∈ l ^ bounds.min, w ∈ bounds.language l :=
    fun w hw => ⟨bounds.min, Nat.le_refl _, hbounds, hw⟩
  by_cases hmax : bounds.max = some 0
  · have hmin : bounds.min = 0 := Nat.le_zero.mp (hbounds 0 hmax)
    rw [repeated_of_zero hmax]
    refine attains_nothing (hleast [] ?_)
    rw [hmin, pow_zero]
    exact Language.nil_mem_one
  · have hsome : ∀ w ∈ l ^ (bounds.min - 1 + 1), w ∈ bounds.language l := by
      intro w hw
      refine ⟨bounds.min - 1 + 1, by omega, fun high hhigh => ?_, hw⟩
      have hle := hbounds high hhigh
      have hpos : high ≠ 0 := fun hzero => hmax (hzero ▸ hhigh)
      omega
    constructor
    case min =>
      obtain ⟨w, hw, hlength⟩ := (h.power bounds.min).min
      rw [minWidth_repeated hmax]
      exact ⟨w, hleast w hw, hlength.trans (minWidth_power r bounds.min)⟩
    case max =>
      intro high hhigh
      rcases maxWidth_repeated_eq_some hmax hhigh with
        ⟨hzero, rfl⟩ | ⟨times, width, htimes, hwidth, rfl⟩
      · obtain ⟨w, hw, hlength⟩ :=
          (h.power bounds.min).max _ (maxWidth_power_of_some hzero bounds.min)
        exact ⟨w, hleast w hw, hlength.trans (Nat.zero_mul _)⟩
      · obtain ⟨w, hw, hlength⟩ := (h.power times).max _ (maxWidth_power_of_some hwidth times)
        refine ⟨w, ⟨times, hbounds times htimes, fun high hhigh => ?_, hw⟩, hlength⟩
        exact Nat.le_of_eq (Option.some.inj (htimes.symm.trans hhigh))
    case unbounded =>
      intro hnone n
      obtain ⟨hzero, hside⟩ := maxWidth_repeated_eq_none hmax hnone
      cases hwidth : r.maxWidth with
      | none =>
        obtain ⟨w, hw, hlong⟩ := (h.power _).unbounded (maxWidth_power_of_none hwidth _) n
        exact ⟨w, hsome w hw, hlong⟩
      | some width =>
        -- no body is unbounded, so enough of them are taken
        have hbound : bounds.max = none := hside.resolve_right (by simp [hwidth])
        have hpos : 0 < width := Nat.pos_of_ne_zero fun heq => hzero (heq ▸ hwidth)
        obtain ⟨w, hw, hlength⟩ :=
          (h.power (bounds.min + n)).max _ (maxWidth_power_of_some hwidth _)
        refine ⟨w, ⟨_, Nat.le_add_right _ _, by simp [hbound], hw⟩, ?_⟩
        rw [hlength]
        exact (Nat.le_add_left n bounds.min).trans (Nat.le_mul_of_pos_left _ hpos)
    case chars =>
      intro c hc
      rw [chars_repeated hmax] at hc
      obtain ⟨w, hw, hmem⟩ := (h.power _).chars c (contains_chars_power.mpr hc)
      exact ⟨w, hsome w hw, hmem⟩
    case first =>
      intro c hc
      rw [first_repeated hmax] at hc
      obtain ⟨w, hw, hhead⟩ := (h.power _).first c (contains_first_power.mpr hc)
      exact ⟨w, hsome w hw, hhead⟩

end Repetition

/-! ## Section 6: Labels -/

section Labels

variable {children : List Reach} {languages : List (Language CodePoint)}

theorem Covers.ofOnly (h : List.Forall₂ Covers children languages) :
    (ofOnly children).Covers (languageOfOnly languages) := by
  cases h with
  | nil => exact covers_nothing
  | cons hbody hrest =>
    cases hrest with
    | nil => exact hbody
    | cons => exact covers_nothing

theorem Covers.conditional (h : List.Forall₂ Covers children languages) (condition : Text) :
    (conditional children).Covers ((Label.conditional condition).language languages) := by
  cases h with
  | nil => exact Covers.choice .nil
  | cons hbody hrest =>
    cases hrest with
    | nil =>
      have hboth := Covers.choice (.cons hbody (.cons covers_nothing .nil))
      simpa [Label.language, Reach.conditional] using hboth
    | cons hsecond hrest => exact Covers.choice (.cons hbody (.cons hsecond hrest))

theorem Attains.conditional (hsome : children ≠ [])
    (h : List.Forall₂ Attains children languages) (condition : Text) :
    (conditional children).Attains ((Label.conditional condition).language languages) := by
  cases h with
  | nil => exact absurd rfl hsome
  | cons hbody hrest =>
    cases hrest with
    | nil =>
      have hnothing := attains_nothing Language.nil_mem_one
      have hboth := Attains.choice (List.cons_ne_nil _ _) (.cons hbody (.cons hnothing .nil))
      simpa [Label.language, Reach.conditional] using hboth
    | cons hsecond hrest =>
      exact Attains.choice (List.cons_ne_nil _ _) (.cons hbody (.cons hsecond hrest))

end Labels

end Reach

/-- Whatever the modes, a literal accepts the character it is written with. -/
theorem Modes.contains_accepts_single (modes : Modes) (c : CodePoint) :
    (modes.accepts (.single c)).contains c = true := by
  unfold accepts
  split
  · exact CharSet.contains_withOtherCase_of_contains (CharSet.contains_single.mpr rfl)
  · exact CharSet.contains_single.mpr rfl

namespace Label

/-- A class has members; what is no class need not. -/
def ClassInhabited : Label → Prop
  | charClass _ _ accepts => ∃ c, accepts.contains c = true
  | _ => True

theorem classInhabited_of_kind {label : Label} (h : label.kind ≠ .charClass) :
    label.ClassInhabited := by
  cases label with
  | charClass => exact absurd rfl h
  | _ => trivial

theorem covers (label : Label) {children : List Reach} {languages : List (Language CodePoint)}
    (h : List.Forall₂ Reach.Covers children languages) :
    (label.reach children).Covers (label.language languages) := by
  cases label with
  | literal _ accepts => exact Reach.covers_one accepts
  | charClass _ _ accepts => exact Reach.covers_one accepts
  | any accepts => exact Reach.covers_one accepts
  | empty => exact Reach.covers_nothing
  | anchor => exact Reach.covers_nothing
  | flags => exact Reach.covers_nothing
  | lookaround => exact Reach.covers_nothing
  | backreference => exact Reach.covers_anything
  | recursion => exact Reach.covers_anything
  | group => exact .ofOnly h
  | quantifier bounds mode => exact (Reach.Covers.ofOnly h).repeated bounds
  | concat => exact .sequence h
  | alternation => exact .choice h
  | conditional condition => exact .conditional h condition

/-- The set of a literal and of a dot is never empty. -/
theorem attains_leaf {label : Label} (hleaf : label.IsLeaf) (hclass : label.ClassInhabited) :
    (label.reach []).Attains (label.language []) := by
  cases hleaf with
  | empty => exact Reach.attains_nothing Language.nil_mem_one
  | flags => exact Reach.attains_nothing Language.nil_mem_one
  | backreference => exact Reach.attains_anything
  | recursion => exact Reach.attains_anything
  | @plain _ modes hplain =>
    cases hplain with
    | @literal c => exact Reach.attains_one ⟨c, modes.contains_accepts_single c⟩
    | charClass => exact Reach.attains_one hclass
    | dot =>
      refine Reach.attains_one ⟨'a'.toNat, ?_⟩
      split <;> decide +kernel
    | anchor => exact Reach.attains_nothing Language.nil_mem_one

theorem attains {label : Label} {children : List Node}
    (hsuits : label.Suits (children.map Node.label)) (hclass : label.ClassInhabited)
    (h : ∀ child ∈ children, child.reach.Attains child.language) :
    (label.reach (children.map Node.reach)).Attains
      (label.language (children.map Node.language)) := by
  -- reaches and languages of the children, side by side
  have hbeside : List.Forall₂ Reach.Attains (children.map Node.reach)
      (children.map Node.language) := by
    rw [List.forall₂_map_left_iff, List.forall₂_map_right_iff, List.forall₂_same]
    exact h
  have hsome : children.map Node.label ≠ [] → children.map Node.reach ≠ [] := by
    simp
  generalize hkinds : children.map Node.label = kinds at hsuits hsome
  cases hsuits with
  | leaf hleaf =>
    obtain rfl := List.map_eq_nil_iff.mp hkinds
    exact attains_leaf hleaf hclass
  | group =>
    obtain ⟨body, rfl, -⟩ := List.map_eq_singleton_iff.mp hkinds
    exact h body List.mem_cons_self
  | lookaround => exact Reach.attains_nothing Language.nil_mem_one
  | quantifier hbounds =>
    obtain ⟨body, rfl, -⟩ := List.map_eq_singleton_iff.mp hkinds
    exact (h body List.mem_cons_self).repeated hbounds
  | concat => exact .sequence hbeside
  | alternation hlength =>
    exact .choice (hsome (List.ne_nil_of_length_pos (by omega))) hbeside
  | conditional _ hbranch => exact .conditional (hsome hbranch) hbeside _

end Label

/-! ## Section 7: Patterns -/

namespace Node

theorem IsNormal.covers {n : Node} (h : n.IsNormal) : n.reach.Covers n.language := by
  induction n using induction with
  | node label mark children ih =>
    obtain ⟨-, hreach⟩ := h _ (mem_preorder_self _)
    rw [hreach, language_eq]
    refine label.covers ?_
    rw [List.forall₂_map_left_iff, List.forall₂_map_right_iff, List.forall₂_same]
    intro child hchild
    exact ih child hchild (h.of_mem (child_mem_preorder (n := .node label mark children) hchild))

theorem IsNormal.attains {n : Node} (h : n.IsNormal)
    (hclass : ∀ m ∈ n.preorder, m.label.ClassInhabited) : n.reach.Attains n.language := by
  induction n using induction with
  | node label mark children ih =>
    obtain ⟨hsuits, hreach⟩ := h _ (mem_preorder_self _)
    rw [hreach, language_eq]
    refine Label.attains hsuits (hclass _ (mem_preorder_self _)) fun child hchild => ?_
    have hbelow : child ∈ (node label mark children).preorder := child_mem_preorder hchild
    exact ih child hchild (h.of_mem hbelow) fun m hm => hclass m (mem_preorder_trans hbelow hm)

end Node

/-- The widths and character sets of every node of a parsed pattern bound
    its words, and as tightly as possible unless a class below the node has
    no member.  References need no exception: their language is that of all
    words, and all of it is within reach. -/
theorem Pattern.reach_exact {text : Text} {p : Pattern} (h : Pattern.parse text = .ok p)
    {n : Node} (hn : n ∈ p.root.preorder) :
    n.reach.Covers n.language ∧
      ((∀ m ∈ n.preorder, m.label.ClassInhabited) → n.reach.Attains n.language) := by
  have hnormal := (isNormal_of_parse h).of_mem hn
  exact ⟨hnormal.covers, hnormal.attains⟩

/-- Two to four characters, none of them a class. -/
theorem Pattern.reach_exact_of_repetition :
    ∃ p, Pattern.parse "(?:ab?){2}".toList = .ok p ∧
      p.root.minWidth = 2 ∧ p.root.maxWidth = some 4 ∧
      p.root.reach.Covers p.root.language ∧ p.root.reach.Attains p.root.language := by
  have hcheck : (Pattern.parse "(?:ab?){2}".toList).toOption.any (fun p =>
      p.root.minWidth == 2 && p.root.maxWidth == some 4 &&
        p.root.preorder.all fun m => m.kind != .charClass) = true := by decide +kernel
  obtain ⟨p, hp, hcheck⟩ := Pattern.exists_of_check hcheck
  simp only [Bool.and_eq_true, beq_iff_eq, List.all_eq_true] at hcheck
  obtain ⟨⟨hmin, hmax⟩, hkinds⟩ := hcheck
  obtain ⟨hcovers, hattains⟩ := Pattern.reach_exact hp p.root.mem_preorder_self
  refine ⟨p, hp, hmin, hmax, hcovers, hattains fun m hm => ?_⟩
  exact Label.classInhabited_of_kind (bne_iff_ne.mp (hkinds m hm))

end RegexInsight
