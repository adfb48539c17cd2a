import BlockScribe.Proofs.Block.Spellings
import BlockScribe.Proofs.Block.Substitution

/-!
# Levels of blocks

A block stands in the array of a list, and its children in an array inside the
object or array of the block.  So each level of blocks takes up two of the levels
that a text may be nested, however the blocks are spelled.
-/

namespace BlockScribe.Block

open Json (Node)

mutual

/-- The levels that a block and those below it take up. -/
def levels : Block → Nat
  | ⟨_, _, _, _, children⟩ => levelsOf children + 1

def levelsOf : List Block → Nat
  | [] => 0
  | block :: blocks => max (levels block) (levelsOf blocks)

end

theorem levels_eq (block : Block) : block.levels = levelsOf block.children + 1 := by
  cases block
  rw [levels]

theorem levelsOf_le {blocks : List Block} {bound : Nat}
    (each : ∀ block ∈ blocks, block.levels ≤ bound) : levelsOf blocks ≤ bound := by
  induction blocks with
  | nil => simp [levelsOf]
  | cons block blocks ih =>
      have ⟨first, later⟩ := List.forall_mem_cons.mp each
      rw [levelsOf]
      exact max_le first (ih later)

/-! ## The cost of a level -/

/-- A block is read at some depth, and its children, if it has any, one level below. -/
theorem exists_readList_of_read {depth : Nat} {node : Node} {block : Block}
    (accepted : read depth node = .ok block) :
    ∃ below, depth = below + 1 ∧
      (block.children = [] ∨ ∃ list, readList below list = .ok block.children) := by
  by_cases none : block.children = []
  · cases depth with
    | zero => cases node <;> cases accepted
    | succ below => exact ⟨below, rfl, .inl none⟩
  · rcases exists_wrap accepted none with ⟨start, front, key, list, back, rfl, named⟩ |
      ⟨start, id, type, props, content, list, rfl⟩
    · obtain ⟨below, same, lists, -⟩ := holdsChildren_object start front back named accepted
      exact ⟨below, same, .inr ⟨list, lists⟩⟩
    · obtain ⟨below, same, lists, -⟩ := holdsChildren_array start id type props content accepted
      exact ⟨below, same, .inr ⟨list, lists⟩⟩

theorem two_mul_levelsOf_le {depth : Nat} {node : Node} {blocks : List Block}
    (accepted : readList depth node = .ok blocks) : 2 * levelsOf blocks ≤ depth := by
  induction depth using Nat.strongRecOn generalizing node blocks with
  | ind depth ih =>
      obtain ⟨below, start, items, rfl, rfl, made⟩ := exists_items_of_readList accepted
      have each : ∀ block ∈ blocks, block.levels ≤ (below + 1) / 2 := by
        intro block member
        obtain ⟨item, here⟩ := exists_of_mem_mapM made member
        obtain ⟨lower, rfl, childless | ⟨list, lists⟩⟩ := exists_readList_of_read here
        · rw [levels_eq, childless, levelsOf]
          omega
        · have deeper := ih lower (by omega) lists
          rw [levels_eq]
          omega
      have bound := levelsOf_le each
      omega

theorem levelsOf_le_of_parseList {text : String} {blocks : List Block}
    (accepted : parseList text = .ok blocks) : levelsOf blocks ≤ 63 := by
  have bound := two_mul_levelsOf_le (parseList_eq_ok.mp accepted).1
  rw [Json.maxDepth] at bound
  omega

/-! ## Towers of blocks -/

/-- Blocks one below the other, as they are written. -/
def towerJson : Nat → Json
  | 0 => .array []
  | height + 1 => .array [.object [("children", towerJson height)]]

def tower : Nat → List Block
  | 0 => []
  | height + 1 => [⟨none, BlockType.paragraph.name, .empty, none, tower height⟩]

theorem levelsOf_tower (height : Nat) : levelsOf (tower height) = height := by
  induction height with
  | zero => rfl
  | succ height ih => simp [tower, levelsOf, levels, ih]

theorem isPlain_towerJson (height : Nat) : (towerJson height).IsPlain (2 * height + 1) := by
  induction height with
  | zero => exact .array (by simp)
  | succ height ih => exact .array (by simpa using .object (by simpa using ih))

theorem canonical_towerJson (height : Nat) : (towerJson height).canonical = towerJson height := by
  induction height with
  | zero => rfl
  | succ height ih =>
      have members : (Json.memberMap [("children", towerJson height)]).entries =
          [("children", (towerJson height).canonical)] := rfl
      rw [towerJson, Json.canonical_array, List.map_singleton, Json.canonical_object, members, ih]

theorem listOfJson?_towerJson (height spare : Nat) :
    listOfJson? (2 * height + 1 + spare) (towerJson height) = some (tower height) := by
  induction height with
  | zero =>
      rw [Nat.add_comm]
      rfl
  | succ height ih =>
      have block : ofJson? (2 * height + 1 + spare + 1) (.object [("children", towerJson height)]) =
          some ⟨none, BlockType.paragraph.name, .empty, none, tower height⟩ := by
        rw [ofJson?]
        show Draft.block <$> (do
          let children ← some <$> listOfJson? (2 * height + 1 + spare) (towerJson height)
          return ⟨none, none, none, none, children⟩) = _
        rw [ih]
        rfl
      have deeper : 2 * (height + 1) + 1 + spare = 2 * height + 1 + spare + 1 + 1 := by omega
      rw [deeper, listOfJson?, towerJson, tower]
      simp [Json.array?, block]

/-- Towers are read up to the greatest height that a block list can have. -/
theorem parseList_towerJson {height : Nat} (low : height ≤ 63) :
    parseList (towerJson height).compact = .ok (tower height) := by
  have deep : Json.maxDepth = 2 * height + 1 + (126 - 2 * height) := by
    rw [Json.maxDepth]
    omega
  have plain : (towerJson height).IsPlain Json.maxDepth :=
    (isPlain_towerJson height).mono (by omega)
  apply parseList_compact plain
  rw [deep, listOfJson?_towerJson]

end BlockScribe.Block
