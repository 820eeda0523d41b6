import Mathlib
import RegexInsight.Proofs.Inference.Ranking
import RegexInsight.Proofs.Inference.Recovery

/-! # Evidence in any order

    Examples are grouped in the order in which their shapes appear, and a
    group is compared with its first member.  None of this shows in the
    candidates: a form depends on its group as a collection, a pattern
    belongs to one group at most, and a group and a known format with the
    same pattern stand in the same order whatever the order of the
    evidence. -/

namespace RegexInsight

/-! ## Section 1: Columns -/

section Columns

variable {key : RunKey} {column column' : List Run}

theorem agree_perm {texts texts' : List Text} (h : texts.Perm texts') :
    agree texts = agree texts' := by
  rw [Bool.eq_iff_iff, agree_iff, agree_iff]
  simp only [h.mem_iff]

theorem leastLength_perm {lengths lengths' : List Nat} (h : lengths.Perm lengths') :
    leastLength lengths = leastLength lengths' := by
  by_cases hnil : lengths = []
  · have hnil' : lengths' = [] := List.nil_perm.mp (hnil ▸ h)
    rw [hnil, hnil']
  · have hnil' : lengths' ≠ [] := fun heq => hnil (List.perm_nil.mp (heq ▸ h))
    exact Nat.le_antisymm (leastLength_le (h.mem_iff.mpr (leastLength_mem hnil')))
      (leastLength_le (h.mem_iff.mp (leastLength_mem hnil)))

theorem greatestLength_perm {lengths lengths' : List Nat} (h : lengths.Perm lengths') :
    greatestLength lengths = greatestLength lengths' := by
  by_cases hnil : lengths = []
  · have hnil' : lengths' = [] := List.nil_perm.mp (hnil ▸ h)
    rw [hnil, hnil']
  · have hnil' : lengths' ≠ [] := fun heq => hnil (List.perm_nil.mp (heq ▸ h))
    exact Nat.le_antisymm (le_greatestLength (h.mem_iff.mp (greatestLength_mem hnil)))
      (le_greatestLength (h.mem_iff.mpr (greatestLength_mem hnil')))

theorem classFor_perm (kind : CharKind) {texts texts' : List Text} (h : texts.Perm texts') :
    classFor kind texts = classFor kind texts' := by
  have hall : ∀ p : Text → Bool, texts.all p = texts'.all p := fun p => by
    rw [Bool.eq_iff_iff, List.all_eq_true, List.all_eq_true]
    simp only [h.mem_iff]
  unfold classFor
  simp only [hall]

theorem isRanged_perm {texts texts' : List Text} (h : texts.Perm texts') :
    isRanged texts = isRanged texts' := by
  unfold isRanged
  dsimp only
  rw [agree_perm h, leastLength_perm (h.map _), greatestLength_perm (h.map _)]

namespace IsColumn

theorem perm (h : IsColumn key column) (hperm : column.Perm column') : IsColumn key column' where
  nonempty := fun hnil => h.nonempty (hnil ▸ hperm).eq_nil
  keys := fun r hr => h.keys r (hperm.mem_iff.mpr hr)
  uniform := fun r hr => h.uniform r (hperm.mem_iff.mpr hr)

/-- The form of a column depends on its first run only by its kind, or by
    its text if all texts agree. -/
theorem formOfPosition_perm (h : IsColumn key column) (hperm : column.Perm column') :
    formOfPosition column = formOfPosition column' := by
  have htexts : (column.map Run.text).Perm (column'.map Run.text) := hperm.map _
  have hlengths := htexts.map List.length
  obtain ⟨r, rest, rfl⟩ := List.exists_cons_of_ne_nil h.nonempty
  obtain ⟨r', rest', rfl⟩ := List.exists_cons_of_ne_nil (h.perm hperm).nonempty
  have hkind : r.kind = r'.kind := by
    rw [← Run.kind_key, ← Run.kind_key, h.keys r List.mem_cons_self,
      (h.perm hperm).keys r' List.mem_cons_self]
  unfold formOfPosition
  dsimp only
  rw [← agree_perm htexts, ← classFor_perm _ htexts, ← leastLength_perm hlengths,
    ← greatestLength_perm hlengths, hkind]
  split
  next hagree =>
    have hmem : r'.text ∈ (r :: rest).map Run.text :=
      List.mem_map_of_mem (hperm.mem_iff.mpr List.mem_cons_self)
    rw [agree_iff.mp hagree r.text List.mem_cons_self r'.text hmem]
  next => rfl

end IsColumn

end Columns

/-! ## Section 2: Groups -/

namespace IsGroup

variable {shape : List RunKey} {group group' : List (List Run)}

theorem perm (h : IsGroup shape group) (hperm : group.Perm group') : IsGroup shape group' where
  nonempty := fun hnil => h.nonempty (hnil ▸ hperm).eq_nil
  keys := fun row hrow => h.keys row (hperm.mem_iff.mpr hrow)
  uniform := fun row hrow => h.uniform row (hperm.mem_iff.mpr hrow)

/-- The columns of a group in another order are the same but for the order
    of their runs. -/
theorem forall₂_perm_positions (h : IsGroup shape group) (hperm : group.Perm group') :
    List.Forall₂ List.Perm (positions group) (positions group') := by
  induction shape generalizing group group' with
  | nil =>
    rw [h.positions_nil, (h.perm hperm).positions_nil]
    exact .nil
  | cons key shape ih =>
    have h' := h.perm hperm
    rw [positions_of_forall_ne_nil h.nonempty h.ne_nil_of_mem,
      positions_of_forall_ne_nil h'.nonempty h'.ne_nil_of_mem]
    exact .cons (hperm.filterMap _) (ih h.tails (hperm.map _))

/-- What is written for a group does not depend on the order of its texts. -/
theorem ofRuns_perm (h : IsGroup shape group) (hperm : group.Perm group') :
    ShapeForm.ofRuns group = ShapeForm.ofRuns group' := by
  have hcolumns := h.forall₂_perm_positions hperm
  have hkeys := h.forall₂_columns
  unfold ShapeForm.ofRuns
  dsimp only
  generalize positions group = columns at hcolumns hkeys
  generalize positions group' = columns' at hcolumns
  suffices hsame : columns.map formOfPosition = columns'.map formOfPosition ∧
      (columns.filter fun runs => isRanged (runs.map Run.text)).length =
        (columns'.filter fun runs => isRanged (runs.map Run.text)).length by
    rw [hsame.1, hsame.2]
  clear h hperm
  induction hcolumns generalizing shape with
  | nil => exact ⟨rfl, rfl⟩
  | @cons column column' columns columns' hcolumn _ ih =>
    obtain ⟨key, shape, hkey, hrest, rfl⟩ := List.forall₂_cons_right_iff.mp hkeys
    obtain ⟨hforms, hranged⟩ := ih hrest
    rw [List.map_cons, List.map_cons, List.filter_cons, List.filter_cons,
      hkey.formOfPosition_perm hcolumn, hforms, isRanged_perm (hcolumn.map _)]
    refine ⟨rfl, ?_⟩
    split
    · exact congrArg (· + 1) hranged
    · exact hranged

end IsGroup

/-! ## Section 3: Grouping -/

/-- The runs of the texts of a shape. -/
def groupOf (texts : List Text) (shape : List RunKey) : List (List Run) :=
  (texts.filter fun t => shapeOf t = shape).map Run.split

section Grouping

variable {texts texts' : List Text} {shape : List RunKey} {shapes : List (List RunKey)} {t : Text}

theorem groupOf_concat (texts : List Text) (t : Text) (shape : List RunKey) :
    groupOf (texts ++ [t]) shape =
      if shapeOf t = shape then groupOf texts shape ++ [Run.split t] else groupOf texts shape := by
  unfold groupOf
  by_cases hshape : shapeOf t = shape <;> simp [List.filter_append, hshape]

/-- The texts of a shape that occurs are a group. -/
theorem isGroup_groupOf (h : ∃ t ∈ texts, shapeOf t = shape) :
    IsGroup shape (groupOf texts shape) := by
  obtain ⟨t, ht, hshape⟩ := h
  refine isGroup_split (List.ne_nil_of_mem (List.mem_filter.mpr ⟨ht, ?_⟩)) fun t ht => ?_
  · exact decide_eq_true hshape
  · exact of_decide_eq_true (List.mem_filter.mp ht).2

theorem IsGroup.map_key_headD {group : List (List Run)} (h : IsGroup shape group) :
    (group.headD []).map Run.key = shape := by
  obtain ⟨row, rest, rfl⟩ := List.exists_cons_of_ne_nil h.nonempty
  exact h.keys row List.mem_cons_self

/-- A text joins the first group if that has its shape. -/
theorem addToGroups_cons {group : List (List Run)} (h : IsGroup shape group)
    (groups : List (List (List Run))) :
    addToGroups (Run.split t) (group :: groups) =
      if shape = shapeOf t then (group ++ [Run.split t]) :: groups
      else group :: addToGroups (Run.split t) groups := by
  rw [addToGroups, h.map_key_headD]
  rfl

/-- A text goes to the group of its shape. -/
theorem addToGroups_of_mem (hnodup : shapes.Nodup)
    (hshapes : ∀ s ∈ shapes, ∃ t ∈ texts, shapeOf t = s) (ht : shapeOf t ∈ shapes) :
    addToGroups (Run.split t) (shapes.map (groupOf texts)) =
      shapes.map (groupOf (texts ++ [t])) := by
  induction shapes with
  | nil => exact absurd ht List.not_mem_nil
  | cons s rest ih =>
    obtain ⟨hs, hrest⟩ := List.forall_mem_cons.mp hshapes
    obtain ⟨hnew, hnodup⟩ := List.nodup_cons.mp hnodup
    rw [List.map_cons, List.map_cons, addToGroups_cons (isGroup_groupOf hs), groupOf_concat]
    by_cases hsame : s = shapeOf t
    · -- the other groups stay as they are
      have hothers : rest.map (groupOf (texts ++ [t])) = rest.map (groupOf texts) := by
        refine List.map_congr_left fun s' hs' => ?_
        rw [groupOf_concat, if_neg fun heq => hnew (by rwa [hsame, heq])]
      rw [hothers, if_pos hsame, if_pos hsame.symm]
    · have hlater : shapeOf t ∈ rest := List.mem_of_ne_of_mem (fun heq => hsame heq.symm) ht
      rw [if_neg hsame, if_neg fun heq => hsame heq.symm, ih hnodup hrest hlater]

/-- A text of a new shape makes a group of its own. -/
theorem addToGroups_of_not_mem (hshapes : ∀ s ∈ shapes, ∃ t ∈ texts, shapeOf t = s)
    (ht : shapeOf t ∉ shapes) :
    addToGroups (Run.split t) (shapes.map (groupOf texts)) =
      shapes.map (groupOf texts) ++ [[Run.split t]] := by
  induction shapes with
  | nil => rfl
  | cons s rest ih =>
    obtain ⟨hs, hrest⟩ := List.forall_mem_cons.mp hshapes
    have hother : s ≠ shapeOf t := fun heq => ht (heq ▸ List.mem_cons_self)
    rw [List.map_cons, addToGroups_cons (isGroup_groupOf hs), if_neg hother,
      ih hrest fun hmem => ht (List.mem_cons_of_mem _ hmem)]
    rfl

/-- The shapes of some texts in the order in which they appear. -/
def shapesOf (texts : List Text) : List (List RunKey) :=
  (texts.map shapeOf).eraseDups

theorem mem_shapesOf : shape ∈ shapesOf texts ↔ ∃ t ∈ texts, shapeOf t = shape := by
  simp [shapesOf]

theorem shapesOf_concat (texts : List Text) (t : Text) :
    shapesOf (texts ++ [t]) =
      if shapeOf t ∈ shapesOf texts then shapesOf texts else shapesOf texts ++ [shapeOf t] := by
  have happend : shapesOf (texts ++ [t]) =
      shapesOf texts ++ ([shapeOf t].removeAll (texts.map shapeOf)).eraseDups := by
    rw [shapesOf, List.map_append, List.map_singleton, List.eraseDups_append]
    rfl
  have hoccurs : shapeOf t ∈ shapesOf texts ↔ shapeOf t ∈ texts.map shapeOf :=
    List.mem_eraseDups
  rw [happend]
  by_cases hknown : shapeOf t ∈ shapesOf texts
  · have hnone : [shapeOf t].removeAll (texts.map shapeOf) = [] := by
      simpa [List.removeAll] using hoccurs.mp hknown
    rw [if_pos hknown, hnone, List.eraseDups_nil, List.append_nil]
  · have hone : [shapeOf t].removeAll (texts.map shapeOf) = [shapeOf t] := by
      simpa [List.removeAll] using mt hoccurs.mpr hknown
    rw [if_neg hknown, hone]
    rfl

theorem nodup_shapesOf (texts : List Text) : (shapesOf texts).Nodup := by
  induction texts using List.reverseRecOn with
  | nil => exact List.nodup_nil
  | append_singleton texts t ih =>
    rw [shapesOf_concat]
    split
    next => exact ih
    next hnew => simpa using ih.concat hnew

theorem shapeGroups_concat (texts : List Text) (t : Text) :
    shapeGroups (texts ++ [t]) = addToGroups (Run.split t) (shapeGroups texts) := by
  simp [shapeGroups, List.foldl_append]

/-- There is one group for each shape that occurs. -/
theorem shapeGroups_eq (texts : List Text) :
    shapeGroups texts = (shapesOf texts).map (groupOf texts) := by
  induction texts using List.reverseRecOn with
  | nil => rfl
  | append_singleton texts t ih =>
    have hshapes : ∀ s ∈ shapesOf texts, ∃ t ∈ texts, shapeOf t = s := fun s => mem_shapesOf.mp
    rw [shapeGroups_concat, ih, shapesOf_concat]
    by_cases hknown : shapeOf t ∈ shapesOf texts
    · rw [if_pos hknown, addToGroups_of_mem (nodup_shapesOf texts) hshapes hknown]
    · -- no earlier text has the new shape
      have hempty : groupOf texts (shapeOf t) = [] := by
        refine List.map_eq_nil_iff.mpr (List.filter_eq_nil_iff.mpr fun t' ht' heq => hknown ?_)
        exact mem_shapesOf.mpr ⟨t', ht', of_decide_eq_true heq⟩
      have hothers : (shapesOf texts).map (groupOf (texts ++ [t])) =
          (shapesOf texts).map (groupOf texts) := by
        refine List.map_congr_left fun s hs => ?_
        have hother : shapeOf t ≠ s := fun heq => hknown (heq ▸ hs)
        rw [groupOf_concat, if_neg hother]
      rw [if_neg hknown, addToGroups_of_not_mem hshapes hknown, List.map_append, hothers,
        List.map_singleton, groupOf_concat, if_pos rfl, hempty]
      rfl

theorem groupOf_perm (h : texts.Perm texts') (shape : List RunKey) :
    (groupOf texts shape).Perm (groupOf texts' shape) :=
  (h.filter _).map _

end Grouping

/-! ## Section 4: Candidates -/

section Candidates

variable {config : InferenceConfig} {evidence evidence' : Evidence}

/-- The same evidence in another order. -/
structure Evidence.Perm (evidence evidence' : Evidence) : Prop where
  examples : evidence.examples.Perm evidence'.examples
  negatives : evidence.negatives.Perm evidence'.negatives

theorem Evidence.Perm.falsePositiveRate_eq (h : evidence.Perm evidence') (form : Form) :
    falsePositiveRate form evidence.negatives = falsePositiveRate form evidence'.negatives := by
  have hlength := h.negatives.length_eq
  have haccepted := (h.negatives.filter form.accepts).length_eq
  have hempty : evidence.negatives.isEmpty = evidence'.negatives.isEmpty := by
    rw [Bool.eq_iff_iff, List.isEmpty_iff_length_eq_zero, List.isEmpty_iff_length_eq_zero, hlength]
  unfold falsePositiveRate
  rw [hempty, hlength, haccepted]

/-- The candidate of a shape. -/
def candidateOf (config : InferenceConfig) (evidence : Evidence) (shape : List RunKey) :
    Candidate :=
  shapeCandidate config evidence (groupOf evidence.examples shape)

theorem Evidence.Perm.candidateOf_eq (h : evidence.Perm evidence') {shape : List RunKey}
    (hshape : ∃ t ∈ evidence.examples, shapeOf t = shape) :
    candidateOf config evidence shape = candidateOf config evidence' shape := by
  have hgroup := groupOf_perm h.examples shape
  unfold candidateOf shapeCandidate shapeConfidence
  dsimp only
  rw [(isGroup_groupOf hshape).ofRuns_perm hgroup, hgroup.length_eq, h.examples.length_eq,
    h.falsePositiveRate_eq]

/-- Known formats are looked for in all examples at once. -/
theorem Evidence.Perm.templateCandidates_eq (h : evidence.Perm evidence') :
    templateCandidates config evidence = templateCandidates config evidence' := by
  have hdetect : Template.detect evidence.examples = Template.detect evidence'.examples := by
    have hall : ∀ t : Template,
        evidence.examples.all t.accepts = evidence'.examples.all t.accepts := fun t => by
      rw [Bool.eq_iff_iff, List.all_eq_true, List.all_eq_true]
      simp only [h.examples.mem_iff]
    simp only [Template.detect, hall]
  have hcandidate : templateCandidate config evidence = templateCandidate config evidence' := by
    funext t
    simp only [templateCandidate, templateConfidence, h.falsePositiveRate_eq, h.examples.length_eq]
  simp only [templateCandidates, hdetect, hcandidate]

theorem finished_injective {form form' : Form} (h : finished config form = finished config form') :
    form.text = form'.text := by
  unfold finished at h
  split at h
  · simpa using h
  · exact h

/-- Two shapes never have the same pattern. -/
theorem candidateOf_pattern_injective {shape shape' : List RunKey}
    (hshape : ∃ t ∈ evidence.examples, shapeOf t = shape)
    (hshape' : ∃ t ∈ evidence.examples, shapeOf t = shape')
    (h : (candidateOf config evidence shape).pattern =
      (candidateOf config evidence shape').pattern) :
    shape = shape' := by
  have hchain : ∀ {s : List RunKey}, (∃ t ∈ evidence.examples, shapeOf t = s) →
      s.IsChain RunKey.Apart := by
    rintro s ⟨t, -, rfl⟩
    exact Run.isChain_split t
  exact (isGroup_groupOf hshape).shape_eq_of_text_eq (isGroup_groupOf hshape') (hchain hshape)
    (hchain hshape') (finished_injective h)

/-- When no pattern comes twice, the candidate of a pattern is the same in
    every order. -/
theorem filter_pattern_perm {cs cs' : List Candidate} (hperm : cs.Perm cs')
    (hnodup : (cs.map Candidate.pattern).Nodup) (t : Text) :
    (cs.filter fun c => c.pattern == t) = cs'.filter fun c => c.pattern == t := by
  have hchosen := hperm.filter fun c => c.pattern == t
  have honce : ((cs.filter fun c => c.pattern == t).map Candidate.pattern).Nodup :=
    hnodup.sublist (List.filter_sublist.map _)
  have hsame : ∀ c ∈ cs.filter fun c => c.pattern == t, c.pattern = t :=
    fun c hc => eq_of_beq (List.mem_filter.mp hc).2
  generalize (cs.filter fun c => c.pattern == t) = chosen at hchosen honce hsame
  match chosen with
  | [] => exact (List.nil_perm.mp hchosen).symm
  | [c] => exact List.singleton_perm.mp hchosen
  | c :: d :: rest =>
    obtain ⟨hc, hrest⟩ := List.forall_mem_cons.mp hsame
    refine absurd ?_ (List.nodup_cons.mp honce).1
    rw [hc, ← hrest d List.mem_cons_self]
    exact List.mem_cons_self

/-- There is one candidate for each shape. -/
theorem shapeCandidates_eq (config : InferenceConfig) (evidence : Evidence) :
    shapeCandidates config evidence =
      (shapesOf evidence.examples).map (candidateOf config evidence) := by
  rw [shapeCandidates, shapeGroups_eq, List.map_map]
  rfl

theorem nodup_patterns_shapeCandidates (config : InferenceConfig) (evidence : Evidence) :
    ((shapeCandidates config evidence).map Candidate.pattern).Nodup := by
  rw [shapeCandidates_eq, List.map_map]
  refine (nodup_shapesOf evidence.examples).map_on fun s hs s' hs' heq => ?_
  exact candidateOf_pattern_injective (mem_shapesOf.mp hs) (mem_shapesOf.mp hs') heq

theorem Evidence.Perm.shapeCandidates_perm (h : evidence.Perm evidence')
    (config : InferenceConfig) :
    (shapeCandidates config evidence).Perm (shapeCandidates config evidence') := by
  have hshapes : (shapesOf evidence.examples).Perm (shapesOf evidence'.examples) := by
    refine (List.perm_ext_iff_of_nodup (nodup_shapesOf _) (nodup_shapesOf _)).mpr fun s => ?_
    rw [mem_shapesOf, mem_shapesOf]
    simp only [h.examples.mem_iff]
  have hsame : (shapesOf evidence.examples).map (candidateOf config evidence) =
      (shapesOf evidence.examples).map (candidateOf config evidence') :=
    List.map_congr_left fun s hs => h.candidateOf_eq (mem_shapesOf.mp hs)
  rw [shapeCandidates_eq, shapeCandidates_eq, hsame]
  exact hshapes.map _

/-- For every pattern the candidates are the same and in the same order. -/
theorem Evidence.Perm.filter_candidates_eq (h : evidence.Perm evidence')
    (config : InferenceConfig) (t : Text) :
    ((shapeCandidates config evidence ++ templateCandidates config evidence).filter
        fun c => c.pattern == t) =
      (shapeCandidates config evidence' ++ templateCandidates config evidence').filter
        fun c => c.pattern == t := by
  rw [List.filter_append, List.filter_append, h.templateCandidates_eq,
    filter_pattern_perm (h.shapeCandidates_perm config) (nodup_patterns_shapeCandidates _ _)]

end Candidates

/-! ## Section 5: Inference -/

/-- Examples and negatives in any order give the same candidates, in orders
    that differ at most between candidates of equal confidence. -/
theorem inferAll_perm (config : InferenceConfig) {evidence evidence' : Evidence}
    (hsome : evidence.examples ≠ []) (hexamples : evidence.examples.Perm evidence'.examples)
    (hnegatives : evidence.negatives.Perm evidence'.negatives) :
    ∃ cs cs', inferAll config evidence = .ok cs ∧ inferAll config evidence' = .ok cs' ∧
      cs.Perm cs' ∧ List.Forall₂ Candidate.Ties cs cs' := by
  have hperm : evidence.Perm evidence' := ⟨hexamples, hnegatives⟩
  have hsome' : evidence'.examples ≠ [] := fun hnil => hsome (List.perm_nil.mp (hnil ▸ hexamples))
  obtain ⟨hsame, hties⟩ := distinct_ranked_of_filter_eq (hperm.filter_candidates_eq config)
  refine ⟨_, _, if_neg ?_, if_neg ?_, hsame, hties⟩
  · simpa using hsome
  · simpa using hsome'

/-- Two shapes with one range each, first met in one order and then in the
    other. -/
theorem inferAll_perm_of_swapped :
    ∃ cs cs',
      inferAll .standard ⟨[['a', 'b'], ['1'], ['2', '3'], ['c']], [['7'], ['x']]⟩ = .ok cs ∧
        inferAll .standard ⟨[['2', '3'], ['1'], ['c'], ['a', 'b']], [['x'], ['7']]⟩ = .ok cs' ∧
        cs.Perm cs' ∧ List.Forall₂ Candidate.Ties cs cs' :=
  inferAll_perm .standard (by decide) (by decide) (by decide)

end RegexInsight
