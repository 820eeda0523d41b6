import Mathlib
import RegexInsight.Proofs.Inference.Shape
import RegexInsight.Proofs.Text.Maximal

/-! # Recovering shapes

    The pattern that is written for a group of texts tells their shape: the
    written pieces can be read back, every piece stands for characters of
    one kind, and neighbouring pieces of one kind belong to one run unless
    they are marks.  Hence groups of different shapes never have the same
    pattern. -/

namespace RegexInsight

/-! ## Section 1: Neighbouring keys -/

theorem isChain_of_shape {texts : List Text} {shape : List RunKey} (hne : texts ≠ [])
    (h : ∀ t ∈ texts, shapeOf t = shape) : shape.IsChain RunKey.Apart := by
  obtain ⟨t, ht⟩ := List.exists_mem_of_ne_nil texts hne
  exact h t ht ▸ Run.isChain_split t

/-! ## Section 2: Joining keys -/

/-- Joins equal keys that stand side by side, apart from those of marks. -/
def joinKeys : List RunKey → List RunKey
  | [] => []
  | key :: rest =>
    if (joinKeys rest).head? = some key ∧ key.kind ≠ .punct then joinKeys rest
    else key :: joinKeys rest

section Joining

variable {key : RunKey} {rest shape : List RunKey}

/-- A key comes as often as its run is long, and that of a mark once. -/
def IsRepeated (key : RunKey) (keys : List RunKey) : Prop :=
  ∃ n, 0 < n ∧ (key.kind = .punct → n = 1) ∧ keys = List.replicate n key

theorem joinKeys_cons_of_head (h : (joinKeys rest).head? = some key) (hpunct : key.kind ≠ .punct) :
    joinKeys (key :: rest) = joinKeys rest :=
  if_pos ⟨h, hpunct⟩

theorem joinKeys_repeated {keys : List RunKey} (h : IsRepeated key keys)
    (hapart : ∀ next ∈ (joinKeys rest).head?, key.Apart next) :
    joinKeys (keys ++ rest) = key :: joinKeys rest := by
  obtain ⟨n, hpos, hmark, rfl⟩ := h
  have hnew : ¬ ((joinKeys rest).head? = some key ∧ key.kind ≠ .punct) :=
    fun ⟨hhead, hpunct⟩ => hpunct (hapart key hhead rfl)
  obtain ⟨n, rfl⟩ := Nat.exists_eq_succ_of_ne_zero (Nat.ne_of_gt hpos)
  clear hpos
  induction n with
  | zero => exact if_neg hnew
  | succ n ih =>
    have hpunct : key.kind ≠ .punct := fun hpunct => by
      have := hmark hpunct
      omega
    have hrest := ih fun hmark => absurd hmark hpunct
    exact (joinKeys_cons_of_head (congrArg List.head? hrest) hpunct).trans hrest

/-- The keys of a shape, repeated as the runs are long, join to the shape. -/
theorem joinKeys_flatten {keys : List (List RunKey)} (h : List.Forall₂ IsRepeated shape keys)
    (hchain : shape.IsChain RunKey.Apart) : joinKeys keys.flatten = shape := by
  induction h with
  | nil => rfl
  | @cons key first shape keys hfirst _ ih =>
    have hrest := ih hchain.tail
    rw [List.flatten_cons, joinKeys_repeated hfirst, hrest]
    intro next hnext
    rw [hrest] at hnext
    exact hchain.rel_head? hnext

end Joining

/-! ## Section 3: The keys of pieces -/

/-- The kind of characters that a class stands for. -/
def FormClass.kind : FormClass → CharKind
  | char c => .ofChar c
  | shorthand .digit => .digit
  | shorthand _ => .other
  | bracket (.range _ _ :: _) => .letter
  | bracket _ => .other

/-- The key of the run to which a piece belongs. -/
def Piece.key (p : Piece) : RunKey :=
  ⟨p.accepted.kind, match p.accepted with
    | .char c => if CharKind.ofChar c = .punct then [c] else []
    | _ => []⟩

theorem key_classFor {kind : CharKind} (texts : List Text) (count : Bounds) (h : kind ≠ .punct) :
    Piece.key ⟨classFor kind texts, count⟩ = ⟨kind, []⟩ := by
  unfold classFor
  cases kind with
  | digit => rfl
  | letter =>
    dsimp only
    split
    next => rfl
    split
    next => rfl
    next => rfl
  | punct => exact absurd rfl h
  | other =>
    dsimp only
    split
    next => rfl
    split
    next => rfl
    next => rfl

namespace IsColumn

variable {key : RunKey} {column : List Run}

/-- All marks of a column are the same. -/
theorem agree_of_punct (h : IsColumn key column) (hpunct : key.kind = .punct) :
    agree (column.map Run.text) = true := by
  have hmark : ∀ r ∈ column, r.text = key.mark := by
    intro r hr
    have hkey := h.keys r hr
    have hkind : r.kind = .punct := by rw [← hpunct, ← hkey, Run.kind_key]
    rw [← hkey]
    simp [Run.key, hkind]
  rw [agree_iff]
  intro t ht t' ht'
  obtain ⟨r, hr, rfl⟩ := List.mem_map.mp ht
  obtain ⟨r', hr', rfl⟩ := List.mem_map.mp ht'
  rw [hmark r hr, hmark r' hr']

theorem key_char {r : Run} (hr : r.IsUniform) {c : Char} (hc : c ∈ r.text) :
    (Piece.char c).key = r.key := by
  have hkind := hr.kinds c hc
  by_cases hpunct : r.kind = .punct
  · -- a mark is the only character of its run
    obtain ⟨d, hd⟩ := List.length_eq_one_iff.mp (hr.single hpunct)
    obtain rfl : c = d := List.mem_singleton.mp (hd ▸ hc)
    simp [Piece.key, Piece.char, FormClass.kind, Run.key, hkind, hpunct, hd]
  · simp [Piece.key, Piece.char, FormClass.kind, Run.key, hkind, hpunct]

/-- The pieces of a column have its key. -/
theorem isRepeated_keys (h : IsColumn key column) :
    IsRepeated key ((piecesOf column).map Piece.key) := by
  obtain ⟨first, rest, rfl⟩ := List.exists_cons_of_ne_nil h.nonempty
  have hfirst := h.uniform first List.mem_cons_self
  have hkey := h.keys first List.mem_cons_self
  unfold piecesOf
  dsimp only
  split
  next =>
    refine ⟨first.text.length, List.length_pos_of_ne_nil hfirst.nonempty, fun hpunct => ?_, ?_⟩
    · exact hfirst.single (by rw [← Run.kind_key, hkey, hpunct])
    · rw [List.map_map]
      refine List.eq_replicate_iff.mpr ⟨by simp, fun k hk => ?_⟩
      obtain ⟨c, hc, rfl⟩ := List.mem_map.mp hk
      rw [Function.comp_apply, key_char hfirst hc, hkey]
  next hdiffer =>
    have hpunct : key.kind ≠ .punct := fun hpunct => hdiffer (h.agree_of_punct hpunct)
    have hkind : first.kind = key.kind := by rw [← hkey, Run.kind_key]
    refine ⟨1, Nat.one_pos, fun hmark => absurd hmark hpunct, ?_⟩
    have hnomark : key = ⟨key.kind, []⟩ := by
      rw [← hkey]
      simp [Run.key, hkind, hpunct]
    rw [List.map_singleton, hkind, key_classFor _ _ hpunct, ← hnomark]
    rfl

end IsColumn

/-! ## Section 4: From the text to the shape -/

/-- Pieces can be read back from their text. -/
theorem Piece.texts_injective {pieces pieces' : List Piece} (h : ∀ p ∈ pieces, p.IsSimple)
    (h' : ∀ p ∈ pieces', p.IsSimple) (heq : pieces.flatMap text = pieces'.flatMap text) :
    pieces = pieces' := by
  have hnone : read? [] = none := rfl
  induction pieces generalizing pieces' with
  | nil =>
    cases pieces' with
    | nil => rfl
    | cons p' rest' =>
      have hread := (h' p' List.mem_cons_self).read?_text (beginsAnew_texts rest')
      rw [← List.flatMap_cons, ← heq, List.flatMap_nil, hnone] at hread
      exact absurd hread (by simp)
  | cons p rest ih =>
    have hread := (h p List.mem_cons_self).read?_text (beginsAnew_texts rest)
    cases pieces' with
    | nil =>
      rw [← List.flatMap_cons, heq, List.flatMap_nil, hnone] at hread
      exact absurd hread (by simp)
    | cons p' rest' =>
      have hread' := (h' p' List.mem_cons_self).read?_text (beginsAnew_texts rest')
      rw [← List.flatMap_cons, heq, List.flatMap_cons, hread'] at hread
      obtain ⟨rfl, htail⟩ := Prod.mk.inj (Option.some.inj hread)
      rw [ih (fun q hq => h q (List.mem_cons_of_mem _ hq))
        (fun q hq => h' q (List.mem_cons_of_mem _ hq)) htail.symm]

namespace IsGroup

variable {shape shape' : List RunKey} {group group' : List (List Run)}

theorem joinKeys_groupPieces (h : IsGroup shape group) (hchain : shape.IsChain RunKey.Apart) :
    joinKeys ((groupPieces group).map Piece.key) = shape := by
  have hcolumns : List.Forall₂ IsRepeated shape
      ((positions group).map fun column => (piecesOf column).map Piece.key) := by
    rw [List.forall₂_map_right_iff]
    exact h.forall₂_columns.imp fun _ _ hcolumn => hcolumn.isRepeated_keys
  have hkeys : (groupPieces group).map Piece.key =
      ((positions group).map fun column => (piecesOf column).map Piece.key).flatten := by
    rw [groupPieces, List.map_flatMap, List.flatMap_def]
  rw [hkeys, joinKeys_flatten hcolumns hchain]

/-- Groups with the same pattern have the same shape. -/
theorem shape_eq_of_text_eq (h : IsGroup shape group) (h' : IsGroup shape' group')
    (hchain : shape.IsChain RunKey.Apart) (hchain' : shape'.IsChain RunKey.Apart)
    (htext : (ShapeForm.ofRuns group).form.text = (ShapeForm.ofRuns group').form.text) :
    shape = shape' := by
  rw [h.text_ofRuns, h'.text_ofRuns] at htext
  rw [← h.joinKeys_groupPieces hchain, ← h'.joinKeys_groupPieces hchain',
    Piece.texts_injective h.isSimple_of_mem h'.isSimple_of_mem htext]

end IsGroup

end RegexInsight
