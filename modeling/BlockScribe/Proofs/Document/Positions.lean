import BlockScribe.Proofs.Document.Identifier
import BlockScribe.Proofs.Document.RoundTrip

/-!
# Blocks at their positions

A position is a path of indices, one for each level from the top list down.  A
document shows each block at the position where it was given, and a block that
came without an id has the id of just that position.  What the other blocks hold
plays no part in it.
-/

namespace BlockScribe

open Identifier (Counted digestHead message)

/-! ## Paths -/

/-- What stands at a path in a list of trees. -/
def atPath? {α : Type} (below : α → List α) : List α → List Nat → Option α
  | _, [] => none
  | items, [index] => items[index]?
  | items, index :: next :: path =>
      items[index]?.bind fun item => atPath? below (below item) (next :: path)

/-- The block at the path lacks an id. -/
def Unnamed (blocks : List Block) (path : List Nat) : Prop :=
  ∃ block, atPath? Block.children blocks path = some block ∧ block.id = none

/-! ## Stored blocks -/

variable {store : String}

theorem StoredBlock.id_eq {path : List Nat} {block : Block} {view : BlockView}
    (stored : StoredBlock store path block view) :
    view.id = block.id.getD (Identifier.derive store path) := by
  cases stored with
  | intro _ id => exact id

theorem StoredBlock.children_stored {path : List Nat} {block : Block} {view : BlockView}
    (stored : StoredBlock store path block view) :
    StoredBlocks store path 0 block.children view.children := by
  cases stored with
  | intro _ _ _ _ _ children => exact children

theorem StoredBlocks.at_index {start : List Nat} {index : Nat} {blocks : List Block}
    {views : List BlockView} (stored : StoredBlocks store start index blocks views) {place : Nat}
    {block : Block} (there : blocks[place]? = some block) :
    ∃ view, views[place]? = some view ∧
      StoredBlock store (start ++ [index + place]) block view := by
  induction blocks generalizing index views place with
  | nil => simp at there
  | cons first blocks ih =>
      cases stored with
      | cons here rest =>
          cases place with
          | zero =>
              simp only [List.getElem?_cons_zero, Option.some_inj] at there
              exact ⟨_, rfl, there ▸ here⟩
          | succ place =>
              obtain ⟨view, found, shown⟩ := ih rest there
              refine ⟨view, found, ?_⟩
              rwa [Nat.add_right_comm, Nat.add_assoc] at shown

/-- Going down by one path in the blocks and in what is stored leads to a block and its view. -/
theorem StoredBlocks.at_path {start path : List Nat} {blocks : List Block}
    {views : List BlockView} (stored : StoredBlocks store start 0 blocks views) {block : Block}
    (there : atPath? Block.children blocks path = some block) :
    ∃ view, atPath? BlockView.children views path = some view ∧
      StoredBlock store (start ++ path) block view := by
  induction path generalizing start blocks views with
  | nil => simp [atPath?] at there
  | cons index path ih =>
      cases path with
      | nil => simpa [atPath?] using stored.at_index there
      | cons next path =>
          obtain ⟨item, here, deeper⟩ := Option.bind_eq_some_iff.mp there
          obtain ⟨view, found, shown⟩ := stored.at_index here
          obtain ⟨inner, lower, whole⟩ := ih shown.children_stored deeper
          refine ⟨inner, ?_, by simpa using whole⟩
          simp [atPath?, found, lower]

/-! ## Derived ids -/

/--
A block without an id is stored with the one that is derived from its path.  No
two paths of one document have the same message, so where digests of different
messages have different heads, no two blocks get the same id in this way.
-/
theorem construct_derivedIds (format : Format) (store : String) (actor : Actor)
    (blocks : List Block) (operations : List Operation)
    (constructed : construct store blocks = .ok operations) :
    ∃ views, format.load? (format.save actor operations) = some (actor, operations) ∧
      readBlocks? operations store = some views ∧
      (∀ path, Unnamed blocks path → ∃ view,
        atPath? BlockView.children views path = some view ∧
          view.id = Identifier.derive store path) ∧
      (∀ path path', Counted path → Counted path' → path ≠ path' →
        message store path ≠ message store path') ∧
      ((∀ path path', Unnamed blocks path → Unnamed blocks path' →
          digestHead store path = digestHead store path' →
          message store path = message store path') →
        ∀ path path' view view', Unnamed blocks path → Unnamed blocks path' →
          Counted path → Counted path' →
          atPath? BlockView.children views path = some view →
          atPath? BlockView.children views path' = some view' →
          path ≠ path' → view.id ≠ view'.id) := by
  obtain ⟨views, read, stored⟩ := storedBlocks_of_construct constructed
  have derived : ∀ path, Unnamed blocks path → ∃ view,
      atPath? BlockView.children views path = some view ∧
        view.id = Identifier.derive store path := by
    rintro path ⟨block, there, unnamed⟩
    obtain ⟨view, found, shown⟩ := stored.at_path there
    refine ⟨view, found, ?_⟩
    rw [shown.id_eq, unnamed, Option.getD_none, List.nil_append]
  have apart : ∀ path path', Counted path → Counted path' → path ≠ path' →
      message store path ≠ message store path' := by
    intro path path' counted counted' other same
    exact other ((Identifier.message_inj store counted counted').mp same)
  refine ⟨views, format.load?_save_of_construct actor constructed, read, derived, apart, ?_⟩
  intro collisionFree path path' view view' unnamed unnamed' counted counted' found found' other
  obtain ⟨_, here, id⟩ := derived path unnamed
  obtain ⟨_, here', id'⟩ := derived path' unnamed'
  cases here.symm.trans found
  cases here'.symm.trans found'
  intro same
  rw [id, id'] at same
  have heads := Identifier.digestHead_of_derive same
  exact apart path path' counted counted' other (collisionFree path path' unnamed unnamed' heads)

/-- Two blocks without ids, the path of one in front of that of the other. -/
def nestedBlocks : List Block :=
  [⟨none, "quote", .empty, some (.inline (.text "Hi")), [⟨none, "file", .empty, none, []⟩]⟩]

theorem unnamed_nestedBlocks {path : List Nat} (unnamed : Unnamed nestedBlocks path) :
    path ∈ [[0], [0, 0]] := by
  obtain ⟨block, there, -⟩ := unnamed
  match path with
  | [] => simp [atPath?] at there
  | [0] | [0, 0] => decide
  | [index + 1] | (index + 1) :: next :: path => simp [atPath?, nestedBlocks] at there
  | 0 :: (next + 1) :: path | 0 :: 0 :: next :: path =>
      cases path <;> simp [atPath?, nestedBlocks] at there

theorem construct_derivedIds_sample : ∃ operations views view view',
    construct "notes" nestedBlocks = .ok operations ∧
      readBlocks? operations "notes" = some views ∧
      atPath? BlockView.children views [0] = some view ∧
      atPath? BlockView.children views [0, 0] = some view' ∧
      view.id = Identifier.derive "notes" [0] ∧ view.id ≠ view'.id := by
  obtain ⟨operations, constructed⟩ :
      ∃ operations, construct "notes" nestedBlocks = .ok operations := ⟨_, rfl⟩
  obtain ⟨views, -, read, derived, -, distinct⟩ :=
    construct_derivedIds .payload "notes" [7] nestedBlocks operations constructed
  have outer : Unnamed nestedBlocks [0] := ⟨_, rfl, rfl⟩
  have inner : Unnamed nestedBlocks [0, 0] := ⟨_, rfl, rfl⟩
  have collisionFree : ∀ path ∈ [[0], [0, 0]], ∀ path' ∈ [[0], [0, 0]],
      digestHead "notes" path = digestHead "notes" path' →
        message "notes" path = message "notes" path' := by
    decide +kernel
  obtain ⟨view, found, id⟩ := derived [0] outer
  obtain ⟨view', found', -⟩ := derived [0, 0] inner
  refine ⟨operations, views, view, view', constructed, read, found, found', id, ?_⟩
  apply distinct _ [0] [0, 0] view view' outer inner _ _ found found' (by decide)
  · intro path path' unnamed unnamed'
    exact collisionFree path (unnamed_nestedBlocks unnamed) path' (unnamed_nestedBlocks unnamed')
  all_goals simp [Counted]

end BlockScribe
