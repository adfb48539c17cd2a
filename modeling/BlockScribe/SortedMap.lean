/-!
# Maps sorted by name

Entries in ascending order of their names, no name twice.  The order of texts
is that of their code points, which is also that of their UTF-8 bytes.
-/

namespace BlockScribe

structure SortedMap (α : Type) where
  entries : List (String × α)
  ascending : entries.Pairwise (fun a b => a.1 < b.1)

namespace SortedMap

variable {α β : Type}

def empty : SortedMap α := ⟨[], .nil⟩

instance : Inhabited (SortedMap α) := ⟨empty⟩

def insertEntry (name : String) (value : α) : List (String × α) → List (String × α)
  | [] => [(name, value)]
  | entry :: rest =>
      if name < entry.1 then (name, value) :: entry :: rest
      else if entry.1 < name then entry :: insertEntry name value rest
      else (name, value) :: rest

theorem mem_insertEntry {name : String} {value : α} {entry : String × α} :
    ∀ {entries : List (String × α)},
      entry ∈ insertEntry name value entries → entry = (name, value) ∨ entry ∈ entries
  | [], h => by simpa [insertEntry] using h
  | head :: rest, h => by
      rw [insertEntry] at h
      split at h
      · simpa using h
      · split at h
        · rcases List.mem_cons.mp h with rfl | h
          · simp
          · rcases mem_insertEntry h with h | h <;> simp [h]
        · rcases List.mem_cons.mp h with h | h <;> simp [h]

theorem ascending_insertEntry {name : String} {value : α} :
    ∀ {entries : List (String × α)}, entries.Pairwise (fun a b => a.1 < b.1) →
      (insertEntry name value entries).Pairwise (fun a b => a.1 < b.1)
  | [], _ => by simp [insertEntry]
  | head :: rest, h => by
      have ⟨before, tail⟩ := List.pairwise_cons.mp h
      rw [insertEntry]
      split
      · next below =>
          refine List.pairwise_cons.mpr ⟨fun entry mem => ?_, h⟩
          rcases List.mem_cons.mp mem with rfl | mem
          · exact below
          · exact String.lt_trans below (before entry mem)
      · split
        · next above =>
            refine List.pairwise_cons.mpr ⟨fun entry mem => ?_, ascending_insertEntry tail⟩
            rcases mem_insertEntry mem with rfl | mem
            · exact above
            · exact before entry mem
        · next notBelow notAbove =>
            have same : name = head.1 :=
              String.le_antisymm (String.not_lt.mp notAbove) (String.not_lt.mp notBelow)
            exact List.pairwise_cons.mpr ⟨fun entry mem => same ▸ before entry mem, tail⟩

def insert (name : String) (value : α) (map : SortedMap α) : SortedMap α :=
  ⟨insertEntry name value map.entries, ascending_insertEntry map.ascending⟩

/-- Entries in the order of writing; of two with one name the later counts. -/
def insertAll (map : SortedMap α) (entries : List (String × α)) : SortedMap α :=
  entries.foldl (fun map entry => map.insert entry.1 entry.2) map

def ofList (entries : List (String × α)) : SortedMap α :=
  empty.insertAll entries

def get? (map : SortedMap α) (name : String) : Option α :=
  map.entries.lookup name

def mapValues (f : α → β) (map : SortedMap α) : SortedMap β :=
  ⟨map.entries.map fun entry => (entry.1, f entry.2),
    List.pairwise_map.mpr map.ascending⟩

def filterMapValues (f : α → Option β) (map : SortedMap α) : SortedMap β where
  entries := map.entries.filterMap fun entry => (f entry.2).map (entry.1, ·)
  ascending := by
    refine map.ascending.filterMap _ ?_
    rintro a b below c hc d hd
    obtain ⟨_, _, rfl⟩ := Option.map_eq_some_iff.mp hc
    obtain ⟨_, _, rfl⟩ := Option.map_eq_some_iff.mp hd
    exact below

@[ext] theorem ext {a b : SortedMap α} (h : a.entries = b.entries) : a = b := by
  cases a; cases b; cases h; rfl

end SortedMap

end BlockScribe
