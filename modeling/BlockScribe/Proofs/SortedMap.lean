import BlockScribe.SortedMap
import Mathlib.Data.List.Sort

/-!
# Looking names up in sorted maps

What each operation on a sorted map does to the value under a name.  A map is
determined by its look-ups, so the rest of the theory never opens its entries.
-/

namespace BlockScribe.SortedMap

variable {α β : Type}

/-! ## Entries -/

theorem lookup_cons_ite {κ : Type} [DecidableEq κ] (name : κ) (head : κ × α)
    (rest : List (κ × α)) :
    (head :: rest).lookup name = if name = head.1 then some head.2 else rest.lookup name := by
  obtain ⟨first, value⟩ := head
  by_cases here : name = first
  · simp [here]
  · have test : (name == first) = false := beq_eq_false_iff_ne.mpr here
    simp [List.lookup_cons, test, here]

theorem lookup_eq_none_of_fresh {κ : Type} [DecidableEq κ] {name : κ} {entries : List (κ × α)}
    (fresh : name ∉ entries.map (·.1)) : entries.lookup name = none := by
  refine List.lookup_eq_none_iff.mpr fun entry member => ?_
  have distinct : name ≠ entry.1 := by
    rintro rfl
    exact fresh (List.mem_map_of_mem (f := (·.1)) member)
  simpa using distinct

private theorem lookup_insertEntry (name other : String) (value : α)
    (entries : List (String × α)) :
    (insertEntry name value entries).lookup other =
      if other = name then some value else entries.lookup other := by
  induction entries with
  | nil => simp [insertEntry, lookup_cons_ite]
  | cons head rest ih =>
      rw [insertEntry]
      split
      · rw [lookup_cons_ite]
      · split
        · next above =>
            have distinct : head.1 ≠ name := fun same => String.lt_irrefl name (same ▸ above)
            rw [lookup_cons_ite, lookup_cons_ite, ih]
            by_cases first : other = head.1
            · simp [first, distinct]
            · simp [first]
        · next notBelow notAbove =>
            have here : head.1 = name :=
              String.le_antisymm (String.not_lt.mp notBelow) (String.not_lt.mp notAbove)
            rw [lookup_cons_ite, lookup_cons_ite, here]
            by_cases same : other = name <;> simp [same]

theorem mem_iff_lookup {κ : Type} [DecidableEq κ] {entries : List (κ × α)}
    (distinct : (entries.map (·.1)).Nodup) (entry : κ × α) :
    entry ∈ entries ↔ entries.lookup entry.1 = some entry.2 := by
  induction entries with
  | nil => simp
  | cons head rest ih =>
      have ⟨fresh, distinct⟩ := List.nodup_cons.mp distinct
      rw [List.mem_cons, ih distinct, lookup_cons_ite]
      by_cases here : entry.1 = head.1
      · have absent := lookup_eq_none_of_fresh fresh
        simp [here, absent, Prod.ext_iff, eq_comm]
      · simp [here, Prod.ext_iff]

/-! ## Maps -/

@[simp] theorem get?_empty (name : String) : (empty : SortedMap α).get? name = none := rfl

@[simp] theorem get?_insert (map : SortedMap α) (name other : String) (value : α) :
    (map.insert name value).get? other =
      if other = name then some value else map.get? other :=
  lookup_insertEntry name other value map.entries

theorem nodup_names (map : SortedMap α) : (map.entries.map (·.1)).Nodup := by
  refine List.pairwise_map.mpr (map.ascending.imp ?_)
  intro a b below same
  exact String.lt_irrefl b.1 (same ▸ below)

theorem get?_insertAll (map : SortedMap α) {entries : List (String × α)}
    (distinct : (entries.map (·.1)).Nodup) (name : String) :
    (map.insertAll entries).get? name = (entries.lookup name).or (map.get? name) := by
  induction entries generalizing map with
  | nil => rfl
  | cons head rest ih =>
      have ⟨fresh, distinct⟩ := List.nodup_cons.mp distinct
      calc (map.insertAll (head :: rest)).get? name
          = ((map.insert head.1 head.2).insertAll rest).get? name := rfl
        _ = (rest.lookup name).or (if name = head.1 then some head.2 else map.get? name) := by
            rw [ih _ distinct, get?_insert]
        _ = ((head :: rest).lookup name).or (map.get? name) := by
            rw [lookup_cons_ite]
            by_cases here : name = head.1
            · simp [here, lookup_eq_none_of_fresh fresh]
            · simp [here]

theorem get?_insertAll_entries (map given : SortedMap α) (name : String) :
    (map.insertAll given.entries).get? name = (given.get? name).or (map.get? name) :=
  map.get?_insertAll given.nodup_names name

theorem get?_ofList {entries : List (String × α)} (distinct : (entries.map (·.1)).Nodup)
    (name : String) : (ofList entries).get? name = entries.lookup name := by
  rw [ofList, get?_insertAll _ distinct, get?_empty, Option.or_none]

theorem mem_entries_iff (map : SortedMap α) (entry : String × α) :
    entry ∈ map.entries ↔ map.get? entry.1 = some entry.2 :=
  mem_iff_lookup map.nodup_names entry

theorem mem_names_iff (map : SortedMap α) (name : String) :
    name ∈ map.entries.map (·.1) ↔ (map.get? name).isSome := by
  rw [List.mem_map, Option.isSome_iff_exists]
  constructor
  · rintro ⟨entry, member, rfl⟩
    exact ⟨entry.2, (mem_entries_iff map entry).mp member⟩
  · rintro ⟨value, there⟩
    exact ⟨(name, value), (mem_entries_iff map (name, value)).mpr there, rfl⟩

/-- The names of a map are those that were put there, also where one came twice. -/
theorem isSome_get?_insertAll (map : SortedMap α) (entries : List (String × α)) (name : String) :
    ((map.insertAll entries).get? name).isSome ↔
      name ∈ entries.map (·.1) ∨ (map.get? name).isSome := by
  induction entries generalizing map with
  | nil => simp [insertAll]
  | cons head rest ih =>
      have step := ih (map.insert head.1 head.2)
      rw [get?_insert] at step
      rw [insertAll, List.foldl_cons, ← insertAll, step, List.map_cons, List.mem_cons]
      by_cases here : name = head.1 <;> simp [here]

theorem isSome_get?_ofList (entries : List (String × α)) (name : String) :
    ((ofList entries).get? name).isSome ↔ name ∈ entries.map (·.1) := by
  simp [ofList, isSome_get?_insertAll]

theorem mem_of_get?_insertAll {map : SortedMap α} {entries : List (String × α)} {name : String}
    {value : α} (there : (map.insertAll entries).get? name = some value) :
    (name, value) ∈ entries ∨ map.get? name = some value := by
  induction entries generalizing map with
  | nil => exact .inr there
  | cons head rest ih =>
      rcases ih there with member | there
      · exact .inl (List.mem_cons_of_mem head member)
      · rw [get?_insert] at there
        split at there
        · next here =>
            cases there
            exact .inl (here ▸ List.mem_cons_self)
        · exact .inr there

/-- Whatever is looked up was put there, also where a name came twice. -/
theorem mem_of_get?_ofList {entries : List (String × α)} {name : String} {value : α}
    (there : (ofList entries).get? name = some value) : (name, value) ∈ entries := by
  rcases mem_of_get?_insertAll there with member | none
  · exact member
  · cases none

theorem ext_get? {a b : SortedMap α} (same : ∀ name, a.get? name = b.get? name) : a = b := by
  have irreflexive : Std.Irrefl fun a b : String × α => a.1 < b.1 :=
    ⟨fun entry => String.lt_irrefl entry.1⟩
  have antisymmetric : Std.Antisymm fun a b : String × α => a.1 < b.1 :=
    ⟨fun _ _ below above => absurd (String.lt_trans below above) (String.lt_irrefl _)⟩
  refine SortedMap.ext (List.Pairwise.eq_of_mem_iff a.ascending b.ascending fun entry => ?_)
  rw [mem_entries_iff, mem_entries_iff, same]

theorem eq_iff_get? {a b : SortedMap α} : a = b ↔ a.get? = b.get? :=
  ⟨congrArg get?, fun same => ext_get? (congrFun same)⟩

@[simp] theorem ofList_entries (map : SortedMap α) : ofList map.entries = map :=
  ext_get? fun name => get?_ofList map.nodup_names name

theorem get?_filterMapValues (f : α → Option β) (map : SortedMap α) (name : String) :
    (map.filterMapValues f).get? name = (map.get? name).bind f := by
  apply Option.ext
  intro value
  have there := mem_entries_iff (map.filterMapValues f) (name, value)
  have here (given : α) := mem_entries_iff map (name, given)
  simp only at there here
  rw [← there, Option.bind_eq_some_iff]
  simp only [filterMapValues, List.mem_filterMap, Option.map_eq_some_iff, Prod.mk.injEq,
    ← here]
  constructor
  · rintro ⟨⟨other, given⟩, member, taken, image, rfl, rfl⟩
    exact ⟨given, member, image⟩
  · rintro ⟨given, member, image⟩
    exact ⟨(name, given), member, value, image, rfl, rfl⟩

/-! ## Names that come twice -/

theorem get?_insertAll_of_fresh (map : SortedMap α) {entries : List (String × α)} {name : String}
    (fresh : name ∉ entries.map (·.1)) : (map.insertAll entries).get? name = map.get? name := by
  induction entries generalizing map with
  | nil => rfl
  | cons head rest ih =>
      simp only [List.map_cons, List.mem_cons, not_or] at fresh
      calc (map.insertAll (head :: rest)).get? name
          = ((map.insert head.1 head.2).insertAll rest).get? name := rfl
        _ = map.get? name := by rw [ih _ fresh.2, get?_insert, if_neg fresh.1]

/-- Of several values under one name the last counts. -/
theorem get?_ofList_last (before : List (String × α)) (name : String) (value : α)
    {behind : List (String × α)} (fresh : name ∉ behind.map (·.1)) :
    (ofList (before ++ (name, value) :: behind)).get? name = some value := by
  have split : ofList (before ++ (name, value) :: behind) =
      ((ofList before).insert name value).insertAll behind := by
    simp [ofList, insertAll]
  rw [split, get?_insertAll_of_fresh _ fresh, get?_insert, if_pos rfl]

theorem exists_last {entries : List (String × α)} {name : String}
    (member : name ∈ entries.map (·.1)) : ∃ before value behind,
      entries = before ++ (name, value) :: behind ∧ name ∉ behind.map (·.1) := by
  induction entries with
  | nil => cases member
  | cons head rest ih =>
      by_cases later : name ∈ rest.map (·.1)
      · obtain ⟨before, value, behind, same, fresh⟩ := ih later
        exact ⟨head :: before, value, behind, congrArg (head :: ·) same, fresh⟩
      · have here : name = head.1 := (List.mem_cons.mp member).resolve_right later
        exact ⟨[], head.2, rest, by rw [here]; rfl, later⟩

end BlockScribe.SortedMap
