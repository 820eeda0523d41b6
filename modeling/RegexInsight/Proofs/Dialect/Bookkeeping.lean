import Mathlib
import RegexInsight.Dialect.Builtin

/-! # Bookkeeping of the registry

    A registry keeps two tables, the dialects by id and the aliases.  Each
    id and each alias stands in its table once, and an alias points to a
    registered id: registering and unregistering keep this, whatever
    records are registered, replaced and removed on the way.  The sections
    lead from one alias over one change to every registry that can be
    reached. -/

namespace RegexInsight

namespace Registry

/-! ## Section 1: Changes -/

/-- The registries that registering and unregistering lead to. -/
inductive Reachable : Registry → Prop where
  | empty : Reachable empty
  | builtin : Reachable builtin
  | register {r : Registry} (d : Dialect) (h : Reachable r) : Reachable (r.register d)
  | unregister {r : Registry} (id : String) (h : Reachable r) : Reachable (r.unregister id)

/-- Both tables are tables, and no alias dangles. -/
structure IsKept (r : Registry) : Prop where
  ids : r.ids.Nodup
  keys : (r.aliases.map Prod.fst).Nodup
  targets : ∀ entry ∈ r.aliases, entry.2 ∈ r.ids

variable {r : Registry} {d : Dialect} {id key target : String}

/-! ## Section 2: Pointing aliases -/

section Pointing

variable {aliases : List (String × String)} {keys : List String} {entry : String × String}

theorem mem_pointAlias :
    entry ∈ pointAlias id aliases key ↔
      entry = (key, id) ∨ entry ∈ aliases ∧ entry.1 ≠ key := by
  simp [pointAlias, or_comm]

/-- Pointing several aliases takes them over and leaves the others. -/
theorem mem_foldl_pointAlias :
    entry ∈ keys.foldl (pointAlias id) aliases ↔
      entry.2 = id ∧ entry.1 ∈ keys ∨ entry ∈ aliases ∧ entry.1 ∉ keys := by
  induction keys generalizing aliases with
  | nil => simp
  | cons key keys ih =>
    rw [List.foldl_cons, ih, mem_pointAlias, Prod.ext_iff]
    by_cases hlater : entry.1 ∈ keys
    · simp [hlater]
    · by_cases hkey : entry.1 = key
      · obtain rfl := hkey
        simp [hlater]
      · simp [hlater, hkey]

theorem nodup_pointAlias (h : (aliases.map Prod.fst).Nodup) :
    ((pointAlias id aliases key).map Prod.fst).Nodup := by
  rw [pointAlias, List.map_append, List.map_singleton, List.nodup_append]
  refine ⟨h.sublist (List.filter_sublist.map Prod.fst), List.nodup_singleton key, ?_⟩
  -- what is left was filtered to have another key
  intro other hother last hlast
  obtain ⟨entry, hentry, rfl⟩ := List.mem_map.mp hother
  obtain rfl := List.mem_singleton.mp hlast
  simpa using (List.mem_filter.mp hentry).2

theorem nodup_foldl_pointAlias (h : (aliases.map Prod.fst).Nodup) :
    ((keys.foldl (pointAlias id) aliases).map Prod.fst).Nodup := by
  induction keys generalizing aliases with
  | nil => exact h
  | cons key keys ih => exact ih (nodup_pointAlias h)

end Pointing

/-! ## Section 3: The dialect table -/

theorem contains_iff : r.contains id = true ↔ id ∈ r.ids := by
  rw [contains, List.contains_iff_mem]

theorem unregister_of_not_mem (h : id ∉ r.ids) : r.unregister id = r := by
  rw [unregister, if_neg fun hcontains => h (contains_iff.mp hcontains)]

/-- Unregistering leaves the other dialects in their order. -/
theorem dialects_unregister (r : Registry) (id : String) :
    (r.unregister id).dialects = r.dialects.filter fun d => d.id != id := by
  by_cases h : id ∈ r.ids
  · rw [unregister, if_pos (contains_iff.mpr h)]
  · rw [unregister_of_not_mem h, eq_comm, List.filter_eq_self]
    intro d hd
    have hne : d.id ≠ id := fun heq => h (heq ▸ List.mem_map_of_mem hd)
    simp [hne]

theorem ids_unregister (r : Registry) (id : String) :
    (r.unregister id).ids = r.ids.filter fun other => other != id := by
  rw [ids, dialects_unregister, ids, List.filter_map]
  rfl

/-- A registered dialect comes last, in place of the one with its id. -/
theorem ids_register (r : Registry) (d : Dialect) :
    (r.register d).ids = (r.ids.filter fun other => other != d.id) ++ [d.id] := by
  rw [← ids_unregister]
  exact List.map_append

theorem mem_ids_unregister {other : String} :
    other ∈ (r.unregister id).ids ↔ other ∈ r.ids ∧ other ≠ id := by
  simp [ids_unregister]

theorem mem_ids_register {other : String} :
    other ∈ (r.register d).ids ↔ other ∈ r.ids ∨ other = d.id := by
  by_cases h : other = d.id <;> simp [ids_register, h]

theorem exists_find? (h : id ∈ r.ids) : ∃ d, r.find? id = some d := by
  obtain ⟨d, hd, rfl⟩ := List.mem_map.mp h
  exact Option.isSome_iff_exists.mp (List.find?_isSome.mpr ⟨d, hd, beq_self_eq_true d.id⟩)

theorem mem_dialects_of_find? (h : r.find? id = some d) : d ∈ r.dialects ∧ d.id = id := by
  have hid := List.find?_some h
  exact ⟨List.mem_of_find?_eq_some h, by simpa using hid⟩

/-- Every dialect is filed under its own id. -/
theorem IsKept.find?_eq_some_iff (h : r.IsKept) :
    r.find? id = some d ↔ d ∈ r.dialects ∧ d.id = id := by
  refine ⟨mem_dialects_of_find?, ?_⟩
  rintro ⟨hmem, rfl⟩
  obtain ⟨found, hfound⟩ := exists_find? (List.mem_map_of_mem hmem)
  obtain ⟨hmem', hid⟩ := mem_dialects_of_find? hfound
  obtain rfl : found = d := List.inj_on_of_nodup_map h.ids hmem' hmem hid
  exact hfound

/-! ## Section 4: The alias table -/

/-- Nothing else than the entries that point to the id is removed. -/
theorem IsKept.mem_aliases_unregister (h : r.IsKept) {entry : String × String} :
    entry ∈ (r.unregister id).aliases ↔ entry ∈ r.aliases ∧ entry.2 ≠ id := by
  by_cases hid : id ∈ r.ids
  · simp [unregister, contains_iff, hid]
  · rw [unregister_of_not_mem hid, iff_self_and]
    -- an id that is not registered has no alias to remove
    exact fun hentry heq => hid (heq ▸ h.targets entry hentry)

theorem mem_aliases_register {entry : String × String} :
    entry ∈ (r.register d).aliases ↔
      entry.2 = d.id ∧ entry.1 ∈ d.aliases.map lowercased ∨
        entry ∈ (r.unregister d.id).aliases ∧ entry.1 ∉ d.aliases.map lowercased :=
  mem_foldl_pointAlias

theorem mem_aliases_of_aliasTarget? (h : r.aliasTarget? key = some target) :
    (key, target) ∈ r.aliases := by
  obtain ⟨entry, hfind, rfl⟩ := Option.map_eq_some_iff.mp h
  have hkey := List.find?_some hfind
  obtain rfl : entry.1 = key := by simpa using hkey
  exact List.mem_of_find?_eq_some hfind

/-- In a table without repeated keys the first entry of a key is its only
    one. -/
theorem IsKept.aliasTarget?_eq_some_iff (h : r.IsKept) :
    r.aliasTarget? key = some target ↔ (key, target) ∈ r.aliases := by
  refine ⟨mem_aliases_of_aliasTarget?, fun hmem => ?_⟩
  obtain ⟨found, hfound⟩ : ∃ found, r.aliasTarget? key = some found := by
    have hsome : (r.aliases.find? fun entry => entry.1 == key).isSome = true :=
      List.find?_isSome.mpr ⟨_, hmem, beq_self_eq_true key⟩
    rw [aliasTarget?, ← Option.isSome_iff_exists, Option.isSome_map]
    exact hsome
  have hsame : (key, found) = (key, target) :=
    List.inj_on_of_nodup_map h.keys (mem_aliases_of_aliasTarget? hfound) hmem rfl
  obtain rfl : found = target := (Prod.ext_iff.mp hsame).2
  exact hfound

/-! ## Section 5: Every reachable registry is kept -/

theorem isKept_empty : empty.IsKept where
  ids := List.nodup_nil
  keys := List.nodup_nil
  targets := fun _ hentry => absurd hentry List.not_mem_nil

theorem IsKept.unregister (h : r.IsKept) (id : String) : (r.unregister id).IsKept where
  ids := by
    rw [ids_unregister]
    exact h.ids.filter _
  keys := by
    have hsublist : ((r.unregister id).aliases.map Prod.fst).Sublist (r.aliases.map Prod.fst) := by
      rw [Registry.unregister]
      split
      · exact List.filter_sublist.map Prod.fst
      · exact List.Sublist.refl _
    exact h.keys.sublist hsublist
  targets := by
    intro entry hentry
    obtain ⟨hmem, hne⟩ := h.mem_aliases_unregister.mp hentry
    exact mem_ids_unregister.mpr ⟨h.targets entry hmem, hne⟩

theorem IsKept.register (h : r.IsKept) (d : Dialect) : (r.register d).IsKept where
  ids := by
    rw [ids_register, List.nodup_append]
    refine ⟨h.ids.filter _, List.nodup_singleton d.id, ?_⟩
    intro other hother last hlast
    obtain rfl := List.mem_singleton.mp hlast
    simpa using (List.mem_filter.mp hother).2
  keys := nodup_foldl_pointAlias (h.unregister d.id).keys
  targets := by
    intro entry hentry
    rcases mem_aliases_register.mp hentry with ⟨heq, -⟩ | ⟨hmem, -⟩
    · exact mem_ids_register.mpr (.inr heq)
    · have hother := (h.unregister d.id).targets entry hmem
      exact mem_ids_register.mpr (.inl (mem_ids_unregister.mp hother).1)

theorem isKept_foldl_register (h : r.IsKept) (dialects : List Dialect) :
    (dialects.foldl Registry.register r).IsKept := by
  induction dialects generalizing r with
  | nil => exact h
  | cons d rest ih => exact ih (h.register d)

theorem Reachable.isKept (h : r.Reachable) : r.IsKept := by
  induction h with
  | empty => exact isKept_empty
  | builtin => exact isKept_foldl_register isKept_empty Dialect.builtin
  | register d _ ih => exact ih.register d
  | unregister id _ ih => exact ih.unregister id

/-! ## Section 6: What names stand for -/

theorem IsKept.aliasTarget?_unregister (h : r.IsKept) (id key : String) :
    (r.unregister id).aliasTarget? key =
      if r.aliasTarget? key = some id then none else r.aliasTarget? key := by
  refine Option.ext fun target => ?_
  rw [(h.unregister id).aliasTarget?_eq_some_iff, h.mem_aliases_unregister,
    ← h.aliasTarget?_eq_some_iff]
  cases r.aliasTarget? key with
  | none => simp
  | some found =>
    by_cases hfound : found = id
    · obtain rfl := hfound
      simp [eq_comm]
    · have hkept : found = target → target ≠ id := fun heq => heq ▸ hfound
      simpa [hfound] using hkept

/-- The dialect takes its aliases over, loses all others, and nothing else
    changes. -/
theorem IsKept.aliasTarget?_register (h : r.IsKept) (d : Dialect) (key : String) :
    (r.register d).aliasTarget? key =
      if key ∈ d.aliases.map lowercased then some d.id
      else (r.unregister d.id).aliasTarget? key := by
  refine Option.ext fun target => ?_
  rw [(h.register d).aliasTarget?_eq_some_iff, mem_aliases_register]
  by_cases hkey : key ∈ d.aliases.map lowercased
  · simp [hkey, eq_comm]
  · simp [hkey, (h.unregister d.id).aliasTarget?_eq_some_iff]

/-- A name stands for an id, for what its alias points to, or for
    nothing. -/
theorem resolve_eq_ok_iff {name : String} :
    r.resolve name = .ok id ↔
      lookupKey name = id ∧ id ∈ r.ids ∨
        lookupKey name ∉ r.ids ∧ r.aliasTarget? (lookupKey name) = some id := by
  -- an id is looked for before an alias
  by_cases hkey : lookupKey name ∈ r.ids
  · have hresolve : r.resolve name = .ok (lookupKey name) := by
      simp only [resolve, contains_iff.mpr hkey, if_true]
    rw [hresolve, Except.ok.injEq]
    constructor
    · rintro rfl
      exact .inl ⟨rfl, hkey⟩
    · rintro (⟨heq, -⟩ | ⟨hnot, -⟩)
      · exact heq
      · exact absurd hkey hnot
  · have hcontains : r.contains (lookupKey name) = false :=
      Bool.eq_false_iff.mpr fun htrue => hkey (contains_iff.mp htrue)
    have hid : ¬(lookupKey name = id ∧ id ∈ r.ids) := fun ⟨heq, hmem⟩ => hkey (heq ▸ hmem)
    simp only [resolve, hcontains, Bool.false_eq_true, if_false, hid, false_or, hkey,
      not_false_eq_true, true_and]
    cases r.aliasTarget? (lookupKey name) <;> simp

/-- Only an unknown name is refused, with the ids in their order. -/
theorem resolve_eq_error {name : String} {e : UnknownDialect} (h : r.resolve name = .error e) :
    e = ⟨name, r.ids⟩ := by
  simp only [resolve] at h
  split at h
  · exact absurd h (by simp)
  · split at h
    · exact absurd h (by simp)
    · exact (Except.error.inj h).symm

theorem IsKept.mem_ids_of_resolve (h : r.IsKept) {name : String} (hname : r.resolve name = .ok id) :
    id ∈ r.ids := by
  rcases resolve_eq_ok_iff.mp hname with ⟨-, hmem⟩ | ⟨-, htarget⟩
  · exact hmem
  · exact h.targets _ (h.aliasTarget?_eq_some_iff.mp htarget)

/-! ## Section 7: Nothing dangles -/

/-- In every registry that can be reached, the dialects are filed under
    their own ids, aliases point to registered ids, and so a name stands for
    a registered id or is refused with the list of ids.  A dialect that is
    registered has exactly its own aliases from then on, and one that is
    removed has none; apart from these no entry changes. -/
theorem Reachable.never_dangles (h : r.Reachable) :
    (r.ids.Nodup ∧ ∀ id d, r.find? id = some d ↔ d ∈ r.dialects ∧ d.id = id) ∧
    ((r.aliases.map Prod.fst).Nodup ∧
      ∀ key id, r.aliasTarget? key = some id → id ∈ r.ids) ∧
    (∀ name, (∃ id ∈ r.ids, r.resolve name = .ok id) ∨ r.resolve name = .error ⟨name, r.ids⟩) ∧
    (∀ d key, (r.register d).aliasTarget? key = some d.id ↔ key ∈ d.aliases.map lowercased) ∧
    (∀ d key, key ∉ d.aliases.map lowercased → r.aliasTarget? key ≠ some d.id →
      (r.register d).aliasTarget? key = r.aliasTarget? key) ∧
    (∀ id key, (r.unregister id).aliasTarget? key ≠ some id) ∧
    (∀ id key, r.aliasTarget? key ≠ some id →
      (r.unregister id).aliasTarget? key = r.aliasTarget? key) ∧
    (∀ id, id ∉ r.ids → r.unregister id = r) := by
  have hkept := h.isKept
  have hcleared : ∀ id key, (r.unregister id).aliasTarget? key ≠ some id := by
    intro id key
    rw [hkept.aliasTarget?_unregister]
    split
    next => exact nofun
    next hother => exact hother
  have hunchanged : ∀ id key, r.aliasTarget? key ≠ some id →
      (r.unregister id).aliasTarget? key = r.aliasTarget? key := by
    intro id key hother
    rw [hkept.aliasTarget?_unregister, if_neg hother]
  refine ⟨⟨hkept.ids, fun id d => hkept.find?_eq_some_iff⟩, ⟨hkept.keys, ?_⟩, ?_, ?_, ?_, hcleared,
    hunchanged, fun id => unregister_of_not_mem⟩
  · intro key id htarget
    exact hkept.targets _ (mem_aliases_of_aliasTarget? htarget)
  · intro name
    cases hname : r.resolve name with
    | ok id => exact .inl ⟨id, hkept.mem_ids_of_resolve hname, rfl⟩
    | error e => exact .inr (congrArg Except.error (resolve_eq_error hname))
  · intro d key
    rw [hkept.aliasTarget?_register]
    split
    next hkey => simp [hkey]
    -- the aliases of a former record with this id went before the new ones came
    next hkey => simp only [hkey, hcleared d.id key]
  · intro d key hkey hother
    rw [hkept.aliasTarget?_register, if_neg hkey, hunchanged d.id key hother]

/-- A dialect that takes `js` over keeps it when the former owner goes, and
    loses it when a record without aliases replaces it. -/
theorem Reachable.never_dangles_of_takeover :
    ∃ r : Registry, r.Reachable ∧ "javascript" ∉ r.ids ∧ r.aliasTarget? "js" = some "tiny" ∧
      ∀ key, (r.register (.automaton "tiny" "Tiny engine" [])).aliasTarget? key ≠ some "tiny" := by
  have hreachable : ((Registry.builtin.register
      (.automaton "tiny" "Tiny engine" ["JS", "t"])).unregister "javascript").Reachable :=
    (Reachable.builtin.register _).unregister _
  refine ⟨_, hreachable, by decide +kernel, by decide +kernel, fun key hkey => ?_⟩
  obtain ⟨-, -, -, howned, -⟩ := hreachable.never_dangles
  exact List.not_mem_nil ((howned (.automaton "tiny" "Tiny engine" []) key).mp hkey)

end Registry

end RegexInsight
