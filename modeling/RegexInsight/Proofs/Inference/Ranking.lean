import Mathlib
import RegexInsight.Inference
import RegexInsight.Proofs.Decimal.Order

/-! # Ranking candidates

    Doubles are ordered as numbers are, apart from what is no number; so
    candidates have ranks in a linear order.  Sorting them is stable, which
    means that it may as well be done for each pattern alone.  Therefore
    the candidates that are left depend only on the candidates of each
    pattern in their order, and not on how the patterns are mixed. -/

namespace RegexInsight

/-! ## Section 1: Ranks -/

namespace Candidate

/-- The rank of a candidate by its confidence; what is no number ranks below
    all numbers. -/
def rank (c : Candidate) : WithBot (Int ×ₗ Int ×ₗ Int) :=
  if c.confidence.isNaN then ⊥ else ↑(Double.place c.confidence.toModel.unpack)

variable {a b c : Candidate}

theorem rank_of_isNaN (h : c.confidence.isNaN = true) : c.rank = ⊥ :=
  if_pos h

theorem rank_of_number (h : c.confidence.isNaN = false) :
    c.rank = ↑(Double.place c.confidence.toModel.unpack) :=
  if_neg (Bool.eq_false_iff.mp h)

theorem notAfter_iff : a.notAfter b = true ↔ b.rank ≤ a.rank := by
  unfold notAfter
  rw [Bool.or_eq_true, decide_eq_true_iff]
  cases hb : b.confidence.isNaN with
  | true => simp [rank_of_isNaN hb]
  | false =>
    rw [rank_of_number hb, Double.le_iff]
    cases ha : a.confidence.isNaN with
    | true =>
      -- a number is not at most what is no number
      have hnone := Double.compare_eq_none (a := b.confidence.toModel.unpack) (.inr ha)
      simp [rank_of_isNaN ha, Float.Model.UnpackedFloat.le, hnone]
    | false => simp [rank_of_number ha, Double.le_iff_place hb ha]

/-- A number of lower rank is less. -/
theorem confidence_lt_of_rank_lt (ha : a.confidence.isNaN = false) (h : a.rank < b.rank) :
    a.confidence < b.confidence := by
  have hb : b.confidence.isNaN = false := by
    rw [Bool.eq_false_iff]
    intro hnone
    rw [rank_of_isNaN hnone] at h
    exact not_lt_bot h
  rw [rank_of_number ha, rank_of_number hb, WithBot.coe_lt_coe] at h
  exact Double.lt_iff.mpr ((Double.lt_iff_place ha hb).mpr h)

/-- Equal confidences have one rank. -/
theorem rank_of_beq {x : Float} (h : (c.confidence == x) = true) :
    c.rank = ↑(Double.place x.toModel.unpack) := by
  obtain ⟨hc, hx⟩ := Double.numbers_of_beq h
  rw [rank_of_number hc, (Double.beq_iff_place hc hx).mp (Double.beq_iff.mp h)]

/-- Two candidates that may stand in either order. -/
def Ties (a b : Candidate) : Prop :=
  a.notAfter b = true ∧ b.notAfter a = true

theorem ties_iff : a.Ties b ↔ a.rank = b.rank := by
  rw [Ties, notAfter_iff, notAfter_iff, and_comm]
  exact le_antisymm_iff.symm

theorem notAfter_trans (a b c : Candidate) :
    a.notAfter b = true → b.notAfter c = true → a.notAfter c = true := by
  simp only [notAfter_iff]
  exact fun hab hbc => hbc.trans hab

theorem notAfter_total (a b : Candidate) : (a.notAfter b || b.notAfter a) = true := by
  rw [Bool.or_eq_true, notAfter_iff, notAfter_iff]
  exact le_total _ _

/-- Two orders of the same candidates by falling rank agree up to ties. -/
theorem forall₂_ties {cs cs' : List Candidate} (hperm : cs.Perm cs')
    (h : cs.Pairwise fun a b => a.notAfter b = true)
    (h' : cs'.Pairwise fun a b => a.notAfter b = true) : List.Forall₂ Ties cs cs' := by
  have hfalling : ∀ {l : List Candidate}, (l.Pairwise fun a b => a.notAfter b = true) →
      (l.map rank).Pairwise (· ≥ ·) :=
    fun hl => List.pairwise_map.mpr (hl.imp notAfter_iff.mp)
  have hranks : cs.map rank = cs'.map rank :=
    List.Perm.eq_of_pairwise (fun _ _ _ _ => ge_antisymm) (hfalling h) (hfalling h')
      (hperm.map rank)
  have hsame : List.Forall₂ (fun a b : Candidate => a.rank = b.rank) cs cs' := by
    rw [← List.forall₂_map_left_iff (f := rank) (R := fun r b => r = rank b),
      ← List.forall₂_map_right_iff, hranks]
    exact List.forall₂_same.mpr fun _ _ => rfl
  exact hsame.imp fun _ _ => ties_iff.mpr

end Candidate

/-! ## Section 2: Stable sorting -/

section Stable

variable {α : Type} {le : α → α → Bool}

/-- A list falls in only one way into a part with a property and a part
    without it. -/
theorem append_eq_append_of_forall {P : α → Prop} {l₁ l₂ m₁ m₂ : List α}
    (h : l₁ ++ l₂ = m₁ ++ m₂) (hl₁ : ∀ x ∈ l₁, P x) (hl₂ : ∀ x ∈ l₂, ¬ P x)
    (hm₁ : ∀ x ∈ m₁, P x) (hm₂ : ∀ x ∈ m₂, ¬ P x) : l₁ = m₁ ∧ l₂ = m₂ := by
  induction l₁ generalizing m₁ with
  | nil =>
    cases m₁ with
    | nil => exact ⟨rfl, h⟩
    | cons x m₁ =>
      obtain rfl : l₂ = x :: (m₁ ++ m₂) := h
      exact absurd (hm₁ x List.mem_cons_self) (hl₂ x List.mem_cons_self)
  | cons x l₁ ih =>
    cases m₁ with
    | nil =>
      obtain rfl : x :: (l₁ ++ l₂) = m₂ := h
      exact absurd (hl₁ x List.mem_cons_self) (hm₂ x List.mem_cons_self)
    | cons y m₁ =>
      obtain ⟨rfl, htail⟩ := List.cons.inj h
      obtain ⟨rfl, rfl⟩ := ih htail (fun z hz => hl₁ z (List.mem_cons_of_mem _ hz))
        (fun z hz => hm₁ z (List.mem_cons_of_mem _ hz))
      exact ⟨rfl, rfl⟩

/-- Sorting and then choosing is choosing and then sorting. -/
theorem filter_mergeSort (trans : ∀ a b c, le a b = true → le b c = true → le a c = true)
    (total : ∀ a b, (le a b || le b a) = true) (p : α → Bool) (l : List α) :
    (l.mergeSort le).filter p = (l.filter p).mergeSort le := by
  induction l with
  | nil => simp
  | cons a l ih =>
    obtain ⟨l₁, l₂, hsort, hrest, hbefore⟩ := List.mergeSort_cons trans total a l
    rw [hrest, List.filter_append] at ih
    rw [hsort, List.filter_append, List.filter_cons, List.filter_cons]
    cases hp : p a with
    | false => simpa using ih
    | true =>
      simp only [if_true]
      obtain ⟨m₁, m₂, hsort', hrest', hbefore'⟩ :=
        List.mergeSort_cons trans total a (l.filter p)
      -- in both results the new member stands before all that it may precede
      have hafter : ∀ {k₁ k₂ k : List α}, (a :: k).mergeSort le = k₁ ++ a :: k₂ →
          ∀ b ∈ k₂, le a b = true := by
        intro k₁ k₂ k hk b hb
        have hsorted := List.pairwise_mergeSort trans total (a :: k)
        rw [hk] at hsorted
        exact (List.pairwise_cons.mp (List.pairwise_append.mp hsorted).2.1).1 b hb
      have hsplit := append_eq_append_of_forall (P := fun b => le a b = false)
        (ih.trans hrest') ?_ ?_ ?_ ?_
      · rw [hsort', hsplit.1, hsplit.2]
      · intro b hb
        simpa using hbefore b (List.mem_of_mem_filter hb)
      · intro b hb
        simp [hafter hsort b (List.mem_of_mem_filter hb)]
      · intro b hb
        simpa using hbefore' b hb
      · intro b hb
        simp [hafter hsort' b hb]

end Stable

/-! ## Section 3: The first candidate of every pattern -/

section Distinct

variable {cs : List Candidate} {c : Candidate} {t : Text}

theorem distinctPatterns_concat (cs : List Candidate) (c : Candidate) :
    distinctPatterns (cs ++ [c]) =
      if (distinctPatterns cs).any fun k => k.pattern == c.pattern then distinctPatterns cs
      else distinctPatterns cs ++ [c] := by
  unfold distinctPatterns
  rw [List.foldl_append, List.foldl_cons, List.foldl_nil]

theorem distinctPatterns_sublist (cs : List Candidate) : (distinctPatterns cs).Sublist cs := by
  induction cs using List.reverseRecOn with
  | nil => exact .slnil
  | append_singleton cs c ih =>
    rw [distinctPatterns_concat]
    split
    · exact ih.trans (List.sublist_append_left cs [c])
    · exact ih.append (List.Sublist.refl [c])

/-- Of every pattern the first candidate is kept. -/
theorem find?_distinctPatterns (t : Text) :
    (distinctPatterns cs).find? (fun k => k.pattern == t) = cs.find? fun k => k.pattern == t := by
  induction cs using List.reverseRecOn with
  | nil => rfl
  | append_singleton cs c ih =>
    rw [distinctPatterns_concat, List.find?_append, ← ih]
    split
    next hknown =>
      -- what is dropped has the pattern of something that was found before
      cases hfind : (distinctPatterns cs).find? fun k => k.pattern == t with
      | some found => rfl
      | none =>
        have hother : (c.pattern == t) = false := by
          rw [Bool.eq_false_iff]
          intro heq
          obtain ⟨k, hk, hsame⟩ := List.any_eq_true.mp hknown
          refine List.find?_eq_none.mp hfind k hk ?_
          rw [eq_of_beq hsame]
          exact heq
        simp [hother]
    next => rw [List.find?_append]

/-- No pattern is kept twice. -/
theorem nodup_patterns_distinctPatterns (cs : List Candidate) :
    ((distinctPatterns cs).map Candidate.pattern).Nodup := by
  induction cs using List.reverseRecOn with
  | nil => exact List.nodup_nil
  | append_singleton cs c ih =>
    rw [distinctPatterns_concat]
    split
    next => exact ih
    next hnew =>
      rw [List.map_append, List.map_singleton, List.nodup_append]
      refine ⟨ih, List.nodup_singleton _, ?_⟩
      intro t ht t' ht' heq
      obtain ⟨k, hk, rfl⟩ := List.mem_map.mp ht
      obtain rfl := List.mem_singleton.mp ht'
      exact hnew (List.any_eq_true.mpr ⟨k, hk, beq_iff_eq.mpr heq⟩)

theorem mem_distinctPatterns_iff :
    c ∈ distinctPatterns cs ↔ cs.find? (fun k => k.pattern == c.pattern) = some c := by
  rw [← find?_distinctPatterns]
  constructor
  · intro hc
    have hsome : ((distinctPatterns cs).find? fun k => k.pattern == c.pattern).isSome = true :=
      List.find?_isSome.mpr ⟨c, hc, beq_self_eq_true _⟩
    obtain ⟨k, hk⟩ := Option.isSome_iff_exists.mp hsome
    have hpattern : k.pattern = c.pattern := by
      have hfound := List.find?_some hk
      exact eq_of_beq hfound
    rw [hk, List.inj_on_of_nodup_map (nodup_patterns_distinctPatterns cs)
      (List.mem_of_find?_eq_some hk) hc hpattern]
  · exact List.mem_of_find?_eq_some

end Distinct

/-! ## Section 4: What remains after ranking -/

section Remaining

variable {cs cs' : List Candidate}

theorem pairwise_distinct_ranked (cs : List Candidate) :
    (distinctPatterns (ranked cs)).Pairwise fun a b => a.notAfter b = true := by
  have hsorted : (ranked cs).Pairwise fun a b => a.notAfter b = true :=
    List.pairwise_mergeSort Candidate.notAfter_trans Candidate.notAfter_total cs
  exact hsorted.sublist (distinctPatterns_sublist _)

/-- What is kept for a pattern depends on the candidates with that pattern
    alone. -/
theorem find?_ranked (t : Text) :
    (ranked cs).find? (fun k => k.pattern == t) =
      (ranked (cs.filter fun k => k.pattern == t)).head? := by
  have hsort := filter_mergeSort Candidate.notAfter_trans Candidate.notAfter_total
    (fun k => k.pattern == t) cs
  rw [← List.head?_filter]
  exact congrArg List.head? hsort

/-- Candidates that agree for every pattern leave the same ones, in orders
    that agree up to ties. -/
theorem distinct_ranked_of_filter_eq
    (h : ∀ t : Text, (cs.filter fun k => k.pattern == t) = cs'.filter fun k => k.pattern == t) :
    (distinctPatterns (ranked cs)).Perm (distinctPatterns (ranked cs')) ∧
      List.Forall₂ Candidate.Ties (distinctPatterns (ranked cs))
        (distinctPatterns (ranked cs')) := by
  have hnodup : ∀ l : List Candidate, (distinctPatterns l).Nodup := fun l =>
    List.Nodup.of_map Candidate.pattern (nodup_patterns_distinctPatterns l)
  have hperm : (distinctPatterns (ranked cs)).Perm (distinctPatterns (ranked cs')) := by
    refine (List.perm_ext_iff_of_nodup (hnodup _) (hnodup _)).mpr fun c => ?_
    rw [mem_distinctPatterns_iff, mem_distinctPatterns_iff, find?_ranked, find?_ranked, h]
  exact ⟨hperm, Candidate.forall₂_ties hperm (pairwise_distinct_ranked _)
    (pairwise_distinct_ranked _)⟩

end Remaining

end RegexInsight
