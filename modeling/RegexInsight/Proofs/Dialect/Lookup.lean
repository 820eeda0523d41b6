import Mathlib
import RegexInsight.Proofs.Dialect.Automaton
import RegexInsight.Proofs.Dialect.Bookkeeping

/-! # Looking dialects up

    Ids are filed as they are given and aliases in lower case, while a name
    is looked up without outer whitespace, in lower case and with
    underscores for dashes.  So a dialect is found by its id or alias
    exactly when this form of the name is what the tables hold.  A check
    of all dialects looks each id up in the same way: it needs them all to
    be found, and judges the dialects themselves when the ids are in that
    form. -/

namespace RegexInsight

/-! ## Section 1: Steps over a list -/

section Outcomes

variable {ε α β : Type}

/-- The results of a list of steps stand beside its members. -/
theorem mapM_eq_ok_iff {f : α → Except ε β} {xs : List α} {ys : List β} :
    xs.mapM f = .ok ys ↔ List.Forall₂ (fun x y => f x = .ok y) xs ys := by
  induction xs generalizing ys with
  | nil =>
    rw [List.forall₂_nil_left_iff]
    exact ⟨fun h => (Except.ok.inj h).symm, fun h => congrArg Except.ok h.symm⟩
  | cons x xs ih =>
    simp only [List.mapM_cons, bind_eq_ok_iff, ih, List.forall₂_cons_left_iff]
    constructor
    · rintro ⟨first, hx, rest, hxs, hys⟩
      exact ⟨first, rest, hx, hxs, (Except.ok.inj hys).symm⟩
    · rintro ⟨first, rest, hx, hxs, rfl⟩
      exact ⟨first, hx, rest, hxs, rfl⟩

theorem exists_forall₂_iff {R : α → β → Prop} {xs : List α} :
    (∃ ys, List.Forall₂ R xs ys) ↔ ∀ x ∈ xs, ∃ y, R x y := by
  induction xs with
  | nil => simp
  | cons x xs ih =>
    rw [List.forall_mem_cons, ← ih]
    constructor
    · rintro ⟨ys, hys⟩
      obtain ⟨y, rest, hx, hrest, rfl⟩ := List.forall₂_cons_left_iff.mp hys
      exact ⟨⟨y, hx⟩, rest, hrest⟩
    · rintro ⟨⟨y, hx⟩, rest, hrest⟩
      exact ⟨y :: rest, .cons hx hrest⟩

theorem exists_mapM_iff {f : α → Except ε β} {xs : List α} :
    (∃ ys, xs.mapM f = .ok ys) ↔ ∀ x ∈ xs, ∃ y, f x = .ok y := by
  simp only [mapM_eq_ok_iff, exists_forall₂_iff]

/-- The first step that fails ends all of them. -/
theorem mapM_eq_error {f : α → Except ε β} {before after : List α} {x : α} {e : ε}
    (hbefore : ∀ b ∈ before, ∃ y, f b = .ok y) (hx : f x = .error e) :
    (before ++ x :: after).mapM f = .error e := by
  induction before with
  | nil => simp [List.mapM_cons, hx, bind, Except.bind]
  | cons b before ih =>
    obtain ⟨⟨y, hy⟩, hrest⟩ := List.forall_mem_cons.mp hbefore
    simp [List.mapM_cons, hy, ih hrest, bind, Except.bind]

end Outcomes

namespace Registry

variable {r : Registry} {d : Dialect} {id name : String} {p : FeatureProfile}

/-! ## Section 2: One name -/

/-- What a name stands for can be had. -/
theorem IsKept.get_eq_ok_iff (h : r.IsKept) :
    r.get name = .ok d ↔ r.resolve name = .ok d.id ∧ d ∈ r.dialects := by
  rw [get, bind_eq_ok_iff]
  constructor
  · rintro ⟨id, hid, hget⟩
    cases hfind : r.find? id with
    | none => simp [hfind] at hget
    | some found =>
      rw [hfind] at hget
      obtain rfl : found = d := Except.ok.inj hget
      obtain ⟨hmem, rfl⟩ := h.find?_eq_some_iff.mp hfind
      exact ⟨hid, hmem⟩
  · rintro ⟨hid, hmem⟩
    refine ⟨d.id, hid, ?_⟩
    rw [h.find?_eq_some_iff.mpr ⟨hmem, rfl⟩]
    rfl

/-- A name stands for something when its form is an id or an alias. -/
theorem IsKept.exists_get_iff (h : r.IsKept) :
    (∃ d, r.get name = .ok d) ↔
      lookupKey name ∈ r.ids ∨ (r.aliasTarget? (lookupKey name)).isSome = true := by
  constructor
  · rintro ⟨d, hd⟩
    rcases resolve_eq_ok_iff.mp (h.get_eq_ok_iff.mp hd).1 with ⟨hkey, hmem⟩ | ⟨-, htarget⟩
    · exact .inl (hkey ▸ hmem)
    · exact .inr (Option.isSome_iff_exists.mpr ⟨_, htarget⟩)
  · intro hknown
    obtain ⟨id, hid⟩ : ∃ id, r.resolve name = .ok id := by
      by_cases hkey : lookupKey name ∈ r.ids
      · exact ⟨_, resolve_eq_ok_iff.mpr (.inl ⟨rfl, hkey⟩)⟩
      · obtain ⟨id, htarget⟩ := Option.isSome_iff_exists.mp (hknown.resolve_left hkey)
        exact ⟨id, resolve_eq_ok_iff.mpr (.inr ⟨hkey, htarget⟩)⟩
    obtain ⟨d, hfind⟩ := exists_find? (h.mem_ids_of_resolve hid)
    obtain ⟨hmem, rfl⟩ := h.find?_eq_some_iff.mp hfind
    exact ⟨d, h.get_eq_ok_iff.mpr ⟨hid, hmem⟩⟩

/-- A registered id stands for its own dialect when it is in the form of
    look-ups, or when that form is free and an alias of the dialect. -/
theorem resolve_id_iff (hid : id ∈ r.ids) :
    r.resolve id = .ok id ↔
      lookupKey id = id ∨ lookupKey id ∉ r.ids ∧ r.aliasTarget? (lookupKey id) = some id := by
  rw [resolve_eq_ok_iff, and_iff_left hid]

/-- After registering, a free form of an alias leads to the dialect exactly
    when the dialect has it among its aliases in lower case. -/
theorem IsKept.resolve_alias_iff (h : r.IsKept) (hfree : lookupKey name ∉ (r.register d).ids) :
    (r.register d).resolve name = .ok d.id ↔ lookupKey name ∈ d.aliases.map lowercased := by
  have hown : d.id ∈ (r.register d).ids := mem_ids_register.mpr (.inr rfl)
  have hkey : ¬(lookupKey name = d.id ∧ d.id ∈ (r.register d).ids) :=
    fun ⟨heq, _⟩ => hfree (heq ▸ hown)
  rw [resolve_eq_ok_iff, or_iff_right hkey, and_iff_right hfree,
    (h.register d).aliasTarget?_eq_some_iff, mem_aliases_register]
  simp [h.mem_aliases_unregister]

/-! ## Section 3: Several dialects -/

section Reports

variable {requested : Option (List String)} {ids : List String} {report : PortabilityReport}

/-- A report has an entry for each target, with the verdict of the dialect
    that the target stands for. -/
theorem check_eq_ok_iff (htargets : r.targets requested = .ok ids) :
    r.check p requested = .ok report ↔
      List.Forall₂ (fun id entry => ∃ d, r.get id = .ok d ∧ entry = (id, d.judge p))
        ids report.verdicts := by
  have hstep : ∀ id entry, (do return (id, (← r.get id).judge p) : Except UnknownDialect _) =
      .ok entry ↔ ∃ d, r.get id = .ok d ∧ entry = (id, d.judge p) := by
    intro id entry
    rw [bind_eq_ok_iff]
    exact exists_congr fun d => and_congr_right' ⟨fun h => (Except.ok.inj h).symm,
      fun h => congrArg Except.ok h.symm⟩
  simp only [← hstep, ← mapM_eq_ok_iff]
  rw [check, htargets]
  show (ids.mapM (fun id => do return (id, (← r.get id).judge p)) >>=
    fun verdicts => pure (⟨verdicts⟩ : PortabilityReport)) = _ ↔ _
  rw [bind_eq_ok_iff]
  constructor
  · rintro ⟨verdicts, hverdicts, hreport⟩
    obtain rfl : ⟨verdicts⟩ = report := Except.ok.inj hreport
    exact hverdicts
  · intro hverdicts
    exact ⟨report.verdicts, hverdicts, rfl⟩

/-- There is a report when every target stands for a dialect. -/
theorem exists_check_iff (htargets : r.targets requested = .ok ids) :
    (∃ report, r.check p requested = .ok report) ↔ ∀ id ∈ ids, ∃ d, r.get id = .ok d := by
  simp only [check_eq_ok_iff htargets]
  constructor
  · rintro ⟨report, hreport⟩ id hid
    obtain ⟨entry, d, hd, -⟩ := exists_forall₂_iff.mp ⟨_, hreport⟩ id hid
    exact ⟨d, hd⟩
  · intro hknown
    obtain ⟨verdicts, hverdicts⟩ : ∃ verdicts, List.Forall₂
        (fun id entry => ∃ d, r.get id = .ok d ∧ entry = (id, d.judge p)) ids verdicts := by
      refine exists_forall₂_iff.mpr fun id hid => ?_
      obtain ⟨d, hd⟩ := hknown id hid
      exact ⟨(id, d.judge p), d, hd, rfl⟩
    exact ⟨⟨verdicts⟩, hverdicts⟩

/-- A report has one entry for each target. -/
theorem map_fst_of_check (htargets : r.targets requested = .ok ids)
    (h : r.check p requested = .ok report) : report.verdicts.map Prod.fst = ids := by
  have hentries := (check_eq_ok_iff htargets).mp h
  have hsame : List.Forall₂ (fun id other : String => id = other) ids
      (report.verdicts.map Prod.fst) := by
    rw [List.forall₂_map_right_iff]
    refine hentries.imp ?_
    rintro id entry ⟨d, -, rfl⟩
    rfl
  exact (List.forall₂_eq_eq_eq ▸ hsame : ids = _).symm

end Reports

theorem IsKept.exists_check_none_iff (h : r.IsKept) :
    (∃ report, r.check p none = .ok report) ↔
      ∀ id ∈ r.ids, lookupKey id ∈ r.ids ∨ (r.aliasTarget? (lookupKey id)).isSome = true := by
  have htargets : r.targets none = .ok r.ids := rfl
  simp only [exists_check_iff htargets, ← h.exists_get_iff]

/-- Ids in the form of look-ups have the verdicts of their own dialects. -/
theorem IsKept.check_none_of_lookupKey (h : r.IsKept) (hids : ∀ id ∈ r.ids, lookupKey id = id) :
    r.check p none = .ok ⟨r.dialects.map fun d => (d.id, d.judge p)⟩ := by
  rw [check_eq_ok_iff rfl, Registry.ids, List.forall₂_map_left_iff, List.forall₂_map_right_iff,
    List.forall₂_same]
  intro d hd
  have hid : d.id ∈ r.ids := List.mem_map_of_mem hd
  have hresolve : r.resolve d.id = .ok d.id :=
    (resolve_id_iff hid).mpr (.inl (hids d.id hid))
  exact ⟨d, h.get_eq_ok_iff.mpr ⟨hresolve, hd⟩, rfl⟩

/-! ## Section 4: When dialects are found by their own names -/

/-- Exactly when a registered dialect is found by its id, when a check of all
    dialects gives its report, and when a new dialect is found by an alias:
    the form in which a name is looked up has to be the form in which it
    was filed. -/
theorem Reachable.lookup_exact (h : r.Reachable) :
    (∀ id ∈ r.ids, r.resolve id = .ok id ↔
      lookupKey id = id ∨ lookupKey id ∉ r.ids ∧ r.aliasTarget? (lookupKey id) = some id) ∧
    (∀ p, (∃ report, r.check p none = .ok report) ↔
      ∀ id ∈ r.ids, lookupKey id ∈ r.ids ∨ (r.aliasTarget? (lookupKey id)).isSome = true) ∧
    (∀ p report, r.check p none = .ok report → report.verdicts.map Prod.fst = r.ids) ∧
    (∀ p, (∀ id ∈ r.ids, lookupKey id = id) →
      r.check p none = .ok ⟨r.dialects.map fun d => (d.id, d.judge p)⟩) ∧
    (∀ d, ∀ name ∈ d.aliases, lookupKey name ∉ (r.register d).ids →
      ((r.register d).resolve name = .ok d.id ↔ lookupKey name ∈ d.aliases.map lowercased)) :=
  ⟨fun _ hid => resolve_id_iff hid, fun _ => h.isKept.exists_check_none_iff,
    fun _ _ => map_fst_of_check rfl, fun _ => h.isKept.check_none_of_lookupKey,
    fun _ _ _ hfree => h.isKept.resolve_alias_iff hfree⟩

/-- The built-in dialects are all judged.  A dialect that is added to them
    is found by its alias in any case, and not by its alias with a dash. -/
theorem Reachable.lookup_exact_of_builtin :
    (∀ p, Registry.builtin.check p none =
      .ok ⟨Dialect.builtin.map fun d => (d.id, d.judge p)⟩) ∧
    ∃ d : Dialect, (Registry.builtin.register d).resolve "Tiny_Engine" = .ok d.id ∧
      (Registry.builtin.register d).resolve "small-engine" ≠ .ok d.id := by
  obtain ⟨-, -, -, hall, halias⟩ := Reachable.builtin.lookup_exact
  refine ⟨fun p => hall p (by decide +kernel),
    .automaton "tiny" "Tiny" ["Tiny_Engine", "small-engine"], ?_, ?_⟩
  · exact (halias _ "Tiny_Engine" (by decide) (by decide +kernel)).mpr (by decide +kernel)
  · rw [ne_eq, halias _ "small-engine" (by decide) (by decide +kernel)]
    decide +kernel

/-- A dialect with a capital letter in its id and a dash in its alias is
    registered and found by neither, so that a check of all dialects is
    refused. -/
theorem Reachable.not_found_by_own_names :
    ∃ (r : Registry) (d : Dialect), r.Reachable ∧ (r.register d).ids = ["MyEngine"] ∧
      d.aliases = ["my-alias"] ∧
      (∀ name ∈ ["MyEngine", "my-alias"],
        (r.register d).resolve name = .error ⟨name, ["MyEngine"]⟩) ∧
      ∀ p report, (r.register d).check p none ≠ .ok report := by
  have hreachable := Reachable.empty.register (.automaton "MyEngine" "My engine" ["my-alias"])
  refine ⟨.empty, .automaton "MyEngine" "My engine" ["my-alias"], .empty, rfl, rfl,
    by decide +kernel, fun p report hreport => ?_⟩
  have hfound := hreachable.isKept.exists_check_none_iff.mp ⟨report, hreport⟩ "MyEngine"
    (List.mem_singleton_self _)
  revert hfound
  decide +kernel

end Registry

end RegexInsight
