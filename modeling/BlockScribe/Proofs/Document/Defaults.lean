import BlockScribe.Proofs.Document.RoundTrip

/-!
# Blocks with everything written out

A block that leaves something out can be written out in full: with the id that
follows from its place, with all default props, and with the content that a
missing one stands for.  Neither the document nor the first violation depends
on which of the two is given, and what is written out in full stays as it is.
-/

namespace BlockScribe

/-! ## Missing entries -/

namespace SortedMap

variable {α : Type}

def addMissing (map : SortedMap α) (entry : String × α) : SortedMap α :=
  if (map.get? entry.1).isSome then map else map.insert entry.1 entry.2

/-- Entries for the names that a map lacks; what is there stays. -/
def fill (map : SortedMap α) (defaults : List (String × α)) : SortedMap α :=
  defaults.foldl addMissing map

theorem get?_addMissing (map : SortedMap α) (entry : String × α) (name : String) :
    (map.addMissing entry).get? name =
      (map.get? name).or (if name = entry.1 then some entry.2 else none) := by
  rw [addMissing]
  split
  · next there =>
      by_cases here : name = entry.1
      · subst here
        obtain ⟨value, found⟩ := Option.isSome_iff_exists.mp there
        simp [found]
      · simp [here]
  · next absent =>
      rw [get?_insert]
      by_cases here : name = entry.1
      · subst here
        simp [Option.not_isSome_iff_eq_none.mp absent]
      · simp [here]

theorem get?_fill (map : SortedMap α) (defaults : List (String × α)) (name : String) :
    (map.fill defaults).get? name = (map.get? name).or (defaults.lookup name) := by
  induction defaults generalizing map with
  | nil => simp [fill]
  | cons entry defaults ih =>
      calc ((map.addMissing entry).fill defaults).get? name
          = ((map.get? name).or (if name = entry.1 then some entry.2 else none)).or
              (defaults.lookup name) := by rw [ih, get?_addMissing]
        _ = (map.get? name).or ((entry :: defaults).lookup name) := by
            rw [lookup_cons_ite, Option.or_assoc]
            by_cases here : name = entry.1 <;> simp [here]

theorem fill_fill (map : SortedMap α) (defaults : List (String × α)) :
    (map.fill defaults).fill defaults = map.fill defaults := by
  refine ext_get? fun name => ?_
  rw [get?_fill, get?_fill, Option.or_assoc, Option.or_self]

/-- An entry under a new name, of which a test says nothing, leaves what it says of the others. -/
theorem flatMap_insertEntry {β : Type} {name : String} {value : α} {test : String × α → List β}
    (silent : test (name, value) = []) {entries : List (String × α)}
    (fresh : entries.lookup name = none) :
    (insertEntry name value entries).flatMap test = entries.flatMap test := by
  induction entries with
  | nil => simp [insertEntry, silent]
  | cons head rest ih =>
      rw [lookup_cons_ite] at fresh
      have other : name ≠ head.1 := by
        rintro rfl
        simp at fresh
      rw [if_neg other] at fresh
      rw [insertEntry]
      split
      · rw [List.flatMap_cons, silent, List.nil_append]
      · split
        · rw [List.flatMap_cons, List.flatMap_cons, ih fresh]
        · next notBelow notAbove =>
            exact absurd (String.le_antisymm (String.not_lt.mp notAbove)
              (String.not_lt.mp notBelow)) other

theorem flatMap_fill {β : Type} {test : String × α → List β} (map : SortedMap α)
    {defaults : List (String × α)} (silent : ∀ entry ∈ defaults, test entry = []) :
    (map.fill defaults).entries.flatMap test = map.entries.flatMap test := by
  induction defaults generalizing map with
  | nil => rfl
  | cons entry defaults ih =>
      have ⟨first, later⟩ := List.forall_mem_cons.mp silent
      have step : (map.addMissing entry).entries.flatMap test = map.entries.flatMap test := by
        rw [addMissing]
        split
        · rfl
        · next absent =>
            exact flatMap_insertEntry first (Option.not_isSome_iff_eq_none.mp absent)
      exact (ih (map.addMissing entry) later).trans step

end SortedMap

/-! ## Blocks written out -/

def PropOwner.spelledOut (owner : PropOwner) (given : SortedMap Json) : SortedMap Json :=
  given.fill owner.defaultProps

def Cell.spelledOut (cell : Cell) : Cell :=
  .full (PropOwner.cell.spelledOut cell.props) cell.content

def Table.spelledOut (table : Table) : Table :=
  ⟨table.columnWidths, table.rows.map (·.map Cell.spelledOut)⟩

def Content.spelledOut : ContentKind → Option Content → Option Content
  | .inline, none => some (.inline .empty)
  | .table, none => some (.table ⟨[], []⟩)
  | .none, none => none
  | _, some (.table given) => some (.table given.spelledOut)
  | _, some content => some content

namespace Block

mutual

/-- The block at `path` in full; one of an unknown type has no defaults to be filled in. -/
def spelledOut (store : String) (path : List Nat) : Block → Block
  | ⟨id, name, given, content, blocks⟩ =>
      let type := BlockType.ofName? name
      { id := some (id.getD (Identifier.derive store path))
        type := name
        props := type.elim given fun type => (PropOwner.block type).spelledOut given
        content := type.elim content fun type => Content.spelledOut type.contentKind content
        children := allSpelledOut store path 0 blocks }

/-- The blocks below `path` in full, the first of them at `index`. -/
def allSpelledOut (store : String) (path : List Nat) (index : Nat) : List Block → List Block
  | [] => []
  | block :: blocks =>
      spelledOut store (path ++ [index]) block :: allSpelledOut store path (index + 1) blocks

end

def listSpelledOut (store : String) (blocks : List Block) : List Block :=
  allSpelledOut store [] 0 blocks

end Block

/-! ## Props -/

namespace PropOwner

theorem violation?_default (owner : PropOwner) :
    ∀ entry ∈ owner.defaultProps, owner.violation? entry.1 entry.2 = none := by
  cases owner with
  | block type => cases type <;> decide
  | cell => decide

theorem violations_spelledOut (owner : PropOwner) (given : SortedMap Json) :
    owner.violations (owner.spelledOut given) = owner.violations given :=
  given.flatMap_fill fun entry member => by simp [owner.violation?_default entry member]

theorem allProps_spelledOut (owner : PropOwner) (given : SortedMap Json) :
    owner.allProps (owner.spelledOut given) = owner.allProps given := by
  refine SortedMap.ext_get? fun name => ?_
  rw [get?_allProps, get?_allProps, spelledOut, SortedMap.get?_fill, Option.or_assoc,
    Option.or_self]

theorem planProps_spelledOut (owner : PropOwner) (given : SortedMap Json) :
    owner.planProps (owner.spelledOut given) = owner.planProps given := by
  have checked : owner.checkProps (owner.spelledOut given) = owner.checkProps given := by
    have reports := owner.checkProps_reports (owner.spelledOut given)
    rw [violations_spelledOut] at reports
    exact reports.unique (owner.checkProps_reports given)
  rw [planProps, planProps, checked, allProps_spelledOut]

end PropOwner

/-! ## Contents -/

theorem Cell.plan_spelledOut (cell : Cell) : cell.spelledOut.plan = cell.plan := by
  have props : cell.spelledOut.props = PropOwner.cell.spelledOut cell.props := rfl
  rw [Cell.plan, Cell.plan, props, PropOwner.planProps_spelledOut]
  rfl

theorem Body.ofTable_spelledOut (table : Table) :
    Body.ofTable table.spelledOut = Body.ofTable table := by
  have row (cells : List Cell) : (cells.map Cell.spelledOut).mapM Cell.plan =
      cells.mapM Cell.plan := by
    rw [List.mapM_map]
    exact congrArg (cells.mapM ·) (funext Cell.plan_spelledOut)
  have rows : table.spelledOut.rows.mapM (fun row => row.mapM Cell.plan) =
      table.rows.mapM fun row => row.mapM Cell.plan := by
    rw [Table.spelledOut, List.mapM_map]
    exact congrArg (table.rows.mapM ·) (funext row)
  rw [Body.ofTable, Body.ofTable, rows]
  rfl

theorem Body.ofContent_spelledOut (type : BlockType) (content : Option Content) :
    Body.ofContent type (Content.spelledOut type.contentKind content) =
      Body.ofContent type content := by
  cases kind : type.contentKind with
  | inline | none =>
      rcases content with _ | _ | _ | _ <;> simp [Content.spelledOut, Body.ofContent, kind]
  | table =>
      rcases content with _ | _ | table | _
      · simp only [Content.spelledOut, Body.ofContent, kind]
        rfl
      · simp [Content.spelledOut, Body.ofContent, kind]
      · simpa [Content.spelledOut, Body.ofContent, kind] using Body.ofTable_spelledOut table
      · simp [Content.spelledOut, Body.ofContent, kind]

/-! ## Blocks -/

mutual

theorem Plan.ofBlock_spelledOut (store : String) (path : List Nat) : (block : Block) →
    Plan.ofBlock store path (block.spelledOut store path) = Plan.ofBlock store path block
  | ⟨id, name, given, content, blocks⟩ => by
      rw [Block.spelledOut, ofBlock, ofBlock]
      cases BlockType.ofName? name with
      | none => rfl
      | some type =>
          simp only [Option.elim_some, PropOwner.planProps_spelledOut, Body.ofContent_spelledOut,
            ofBlocks_spelledOut store path 0 blocks, Option.getD_some]

theorem Plan.ofBlocks_spelledOut (store : String) (path : List Nat) (index : Nat) :
    (blocks : List Block) → Plan.ofBlocks store path index
      (Block.allSpelledOut store path index blocks) = Plan.ofBlocks store path index blocks
  | [] => by rw [Block.allSpelledOut]
  | block :: blocks => by
      rw [Block.allSpelledOut, ofBlocks, ofBlocks, ofBlock_spelledOut store _ block,
        ofBlocks_spelledOut store path (index + 1) blocks]

end

/-! ## Twice -/

theorem PropOwner.spelledOut_spelledOut (owner : PropOwner) (given : SortedMap Json) :
    owner.spelledOut (owner.spelledOut given) = owner.spelledOut given :=
  given.fill_fill owner.defaultProps

theorem Cell.spelledOut_spelledOut (cell : Cell) : cell.spelledOut.spelledOut = cell.spelledOut :=
  congrArg (Cell.full · cell.content) (PropOwner.cell.spelledOut_spelledOut cell.props)

theorem Table.spelledOut_spelledOut (table : Table) :
    table.spelledOut.spelledOut = table.spelledOut := by
  simp [spelledOut, Cell.spelledOut_spelledOut]

theorem Content.spelledOut_spelledOut (kind : ContentKind) (content : Option Content) :
    spelledOut kind (spelledOut kind content) = spelledOut kind content := by
  rcases content with _ | _ | table | _
  · cases kind <;> simp [spelledOut, Table.spelledOut]
  · simp [spelledOut]
  · simp [spelledOut, Table.spelledOut_spelledOut]
  · simp [spelledOut]

mutual

theorem Block.spelledOut_spelledOut (store : String) (path : List Nat) : (block : Block) →
    (block.spelledOut store path).spelledOut store path = block.spelledOut store path
  | ⟨id, name, given, content, blocks⟩ => by
      rw [spelledOut, spelledOut, allSpelledOut_allSpelledOut store path 0 blocks]
      cases BlockType.ofName? name with
      | none => rfl
      | some type =>
          simp only [Option.elim_some, PropOwner.spelledOut_spelledOut,
            Content.spelledOut_spelledOut, Option.getD_some]

theorem Block.allSpelledOut_allSpelledOut (store : String) (path : List Nat) (index : Nat) :
    (blocks : List Block) → allSpelledOut store path index
      (allSpelledOut store path index blocks) = allSpelledOut store path index blocks
  | [] => by rw [allSpelledOut, allSpelledOut]
  | block :: blocks => by
      rw [allSpelledOut, allSpelledOut, spelledOut_spelledOut store _ block,
        allSpelledOut_allSpelledOut store path (index + 1) blocks]

end

/-! ## Nothing left out -/

/-- A cell with props of its own, all default ones among them. -/
def Cell.IsComplete (cell : Cell) : Prop :=
  ∃ props content, cell = .full props content ∧
    ∀ name ∈ Cell.defaultProps.map (·.1), (props.get? name).isSome

/-- A block leaves out nothing that its type has a default for. -/
structure Block.IsComplete (block : Block) : Prop where
  id : block.id.isSome
  props : ∀ type, BlockType.ofName? block.type = some type →
    ∀ name ∈ type.defaultProps.map (·.1), (block.props.get? name).isSome
  content : ∀ type, BlockType.ofName? block.type = some type →
    type.contentKind ≠ .none → block.content.isSome
  cells : ∀ type table, BlockType.ofName? block.type = some type →
    block.content = some (.table table) → ∀ row ∈ table.rows, ∀ cell ∈ row, cell.IsComplete

theorem PropOwner.isSome_get?_spelledOut (owner : PropOwner) (given : SortedMap Json) :
    ∀ name ∈ owner.defaultProps.map (·.1), ((owner.spelledOut given).get? name).isSome := by
  intro name listed
  have byDefault : (owner.defaultProps.lookup name).isSome := by
    rwa [← SortedMap.get?_ofList owner.nodup_defaultProps, SortedMap.isSome_get?_ofList]
  rw [spelledOut, SortedMap.get?_fill, Option.isSome_or, byDefault, Bool.or_true]

theorem Cell.isComplete_spelledOut (cell : Cell) : cell.spelledOut.IsComplete :=
  ⟨_, _, rfl, PropOwner.cell.isSome_get?_spelledOut cell.props⟩

theorem Content.isSome_spelledOut {kind : ContentKind} (content : Option Content)
    (holds : kind ≠ .none) : (spelledOut kind content).isSome := by
  rcases content with _ | _ | _ | _ <;> cases kind <;> simp_all [spelledOut]

theorem Content.isComplete_cells {kind : ContentKind} {content : Option Content} {table : Table}
    (given : spelledOut kind content = some (.table table)) :
    ∀ row ∈ table.rows, ∀ cell ∈ row, cell.IsComplete := by
  rcases content with _ | _ | written | _
  · cases kind <;> simp [spelledOut] at given
    subst given
    simp
  · simp [spelledOut] at given
  · simp only [spelledOut, Option.some_inj, Content.table.injEq] at given
    subst given
    intro row member cell inside
    obtain ⟨cells, -, rfl⟩ := List.mem_map.mp member
    obtain ⟨cell, -, rfl⟩ := List.mem_map.mp inside
    exact cell.isComplete_spelledOut
  · simp [spelledOut] at given

mutual

theorem Block.isComplete_spelledOut (store : String) (path : List Nat) : (block : Block) →
    ∀ inner ∈ (block.spelledOut store path).preorder, inner.IsComplete
  | ⟨id, name, given, content, blocks⟩ => by
      rw [spelledOut, preorder]
      refine List.forall_mem_cons.mpr
        ⟨⟨rfl, ?_, ?_, ?_⟩, isComplete_allSpelledOut store path 0 blocks⟩
      · intro type known
        simp only at known
        simp only [known, Option.elim_some]
        exact (PropOwner.block type).isSome_get?_spelledOut given
      · intro type known holds
        simp only at known
        simpa [known] using Content.isSome_spelledOut content holds
      · intro type table known written
        simp only at known
        simp only [known, Option.elim_some] at written
        exact Content.isComplete_cells written

theorem Block.isComplete_allSpelledOut (store : String) (path : List Nat) (index : Nat) :
    (blocks : List Block) →
      ∀ inner ∈ preorders (allSpelledOut store path index blocks), inner.IsComplete
  | [] => by
      rw [allSpelledOut, preorders]
      exact List.forall_mem_nil _
  | block :: blocks => by
      rw [allSpelledOut, preorders]
      exact List.forall_mem_append.mpr ⟨isComplete_spelledOut store _ block,
        isComplete_allSpelledOut store path (index + 1) blocks⟩

end

/--
Blocks that are written out in full leave nothing out, at any depth, and stay
as they are when that is done again.  A construction comes to the same for them
as for the blocks they were made of: to the same operations, and so to the same
payload, or to the same violation.
-/
theorem construct_spelledOut (store : String) (blocks : List Block) :
    construct store (Block.listSpelledOut store blocks) = construct store blocks ∧
      Block.listSpelledOut store (Block.listSpelledOut store blocks) =
        Block.listSpelledOut store blocks ∧
      ∀ block ∈ Block.preorders (Block.listSpelledOut store blocks), block.IsComplete := by
  refine ⟨?_, Block.allSpelledOut_allSpelledOut store [] 0 blocks,
    Block.isComplete_allSpelledOut store [] 0 blocks⟩
  rw [construct, construct, Plan.ofList, Plan.ofList, Block.listSpelledOut,
    Plan.ofBlocks_spelledOut]

end BlockScribe
