import BlockScribe.Document.Format
import BlockScribe.Proofs.Block.Violations
import BlockScribe.Proofs.Document.Marks
import BlockScribe.Proofs.Document.Reading

/-!
# Documents show their blocks

What a stored block has to be for a given one: the same type, the id that was
given or the one that follows from the path, every prop that was given or is a
default, and the content, character by character and cell by cell.  A document
that was constructed, saved and loaded again shows exactly its blocks.
-/

namespace BlockScribe

/-! ## Stored blocks -/

/-- Each prop is the scalar of what is given for it, or else of its default. -/
def PropOwner.Shown (owner : PropOwner) (given : SortedMap Json) (props : SortedMap Scalar) :
    Prop :=
  ∀ name, (props.get? name).map some =
    ((given.get? name).or (owner.defaultProps.lookup name)).map Scalar.ofJson?

structure Inline.Shown (content : Inline) (view : TextView) : Prop where
  text : view.text = String.join ((content.toItems.flatMap InlineItem.runs).map Run.text)
  chars : view.text.toList = content.styledChars.map StyledChar.char
  marks : ∀ position name value, Covered view.marks position name value ↔
    ∃ c, content.styledChars[position]? = some c ∧ c.mark? name = some value

structure Cell.Shown (cell : Cell) (view : CellView) : Prop where
  props : PropOwner.cell.Shown cell.props view.props
  content : cell.content.Shown view.content

/-- The parts of a stored block that its kind of content has, and no others. -/
inductive ContentShown : ContentKind → Option Content → Option TextView →
    Option (List Scalar) → Option (List (List CellView)) → Prop
  | inline {content view} (shown : content.Shown view) :
      ContentShown .inline (some (.inline content)) (some view) none none
  | noInline {view} (shown : Inline.empty.Shown view) :
      ContentShown .inline none (some view) none none
  | table {table : Table} {rows} (shown : List.Forall₂ (List.Forall₂ Cell.Shown) table.rows rows) :
      ContentShown .table (some (.table table)) none
        (some (table.columnWidths.map Scalar.ofWidth)) (some rows)
  | noTable : ContentShown .table none none (some []) (some [])
  | none : ContentShown .none none none none none

mutual

/-- A stored block shows the block that stands at `path`. -/
inductive StoredBlock (store : String) : List Nat → Block → BlockView → Prop
  | intro {path : List Nat} {block : Block} {view : BlockView} {type : BlockType}
      (known : BlockType.ofName? block.type = some type)
      (id : view.id = block.id.getD (Identifier.derive store path))
      (kind : view.type = block.type)
      (props : (PropOwner.block type).Shown block.props view.props)
      (content : ContentShown type.contentKind block.content view.content view.columnWidths
        view.rows)
      (children : StoredBlocks store path 0 block.children view.children) :
      StoredBlock store path block view

/-- Stored blocks show as many blocks below `path`, the first of them at `index`. -/
inductive StoredBlocks (store : String) : List Nat → Nat → List Block → List BlockView → Prop
  | nil {path : List Nat} {index : Nat} : StoredBlocks store path index [] []
  | cons {path : List Nat} {index : Nat} {block : Block} {view : BlockView}
      {blocks : List Block} {views : List BlockView}
      (first : StoredBlock store (path ++ [index]) block view)
      (rest : StoredBlocks store path (index + 1) blocks views) :
      StoredBlocks store path index (block :: blocks) (view :: views)

end

/-! ## Plans that succeed -/

namespace PropOwner

theorem violation?_of_checkProps {owner : PropOwner} {props : SortedMap Json}
    (checked : owner.checkProps props = .ok ()) {name : String} {value : Json}
    (there : props.get? name = some value) : owner.violation? name value = none := by
  have clean : owner.violations props = [] :=
    (owner.checkProps_reports props).ok_iff.mp ⟨(), checked⟩
  have member := (SortedMap.mem_entries_iff props (name, value)).mpr there
  simpa using List.flatMap_eq_nil_iff.mp clean _ member

theorem isScalar_of_checkProps {owner : PropOwner} {props : SortedMap Json}
    (checked : owner.checkProps props = .ok ()) {name : String} {value : Json}
    (there : props.get? name = some value) : value.isScalar := by
  have kept := violation?_of_checkProps checked there
  cases scalar : value.isScalar with
  | true => rfl
  | false => simp [violation?, scalar] at kept

theorem nodup_defaultProps (owner : PropOwner) : (owner.defaultProps.map (·.1)).Nodup := by
  cases owner with
  | block type => cases type <;> decide
  | cell => decide

theorem get?_allProps (owner : PropOwner) (given : SortedMap Json) (name : String) :
    (owner.allProps given).get? name = (given.get? name).or (owner.defaultProps.lookup name) := by
  rw [allProps, SortedMap.get?_insertAll_entries, SortedMap.get?_ofList owner.nodup_defaultProps]

theorem shown_of_planProps {owner : PropOwner} {given : SortedMap Json}
    {props : SortedMap Scalar} (planned : owner.planProps given = .ok props) :
    owner.Shown given props := by
  obtain ⟨_, checked, planned⟩ := bind_eq_ok.mp planned
  cases planned
  intro name
  rw [SortedMap.get?_filterMapValues, get?_allProps]
  cases found : (given.get? name).or (owner.defaultProps.lookup name) with
  | none => rfl
  | some value =>
      have scalar : value.isScalar := by
        rcases Option.or_eq_some_iff.mp found with here | ⟨-, byDefault⟩
        · exact isScalar_of_checkProps checked here
        · rw [← SortedMap.get?_ofList owner.nodup_defaultProps] at byDefault
          exact isScalar_of_checkProps owner.checkProps_defaultProps byDefault
      rw [← Scalar.isSome_ofJson?] at scalar
      obtain ⟨image, taken⟩ := Option.isSome_iff_exists.mp scalar
      simp [taken]

end PropOwner

/-! ## Contents -/

theorem Inline.shown_view (content : Inline) :
    content.Shown (FlatText.ofInline content).view := by
  refine ⟨?_, ?_, fun position name value => FlatText.covered_view content⟩
  · show String.ofList (FlatText.ofInline content).text.toList = _
    rw [String.ofList_toList]
    rfl
  · simp [FlatText.view, TextView.ofChars, FlatText.text_ofInline]

theorem Cell.shown_of_plan {cell : Cell} {plan : CellPlan} (planned : cell.plan = .ok plan) :
    cell.Shown plan.view := by
  obtain ⟨props, taken, planned⟩ := bind_eq_ok.mp planned
  cases planned
  exact ⟨PropOwner.shown_of_planProps taken, cell.content.shown_view⟩

/-- The bodies that there are for contents, with the rows of a table planned cell by cell. -/
inductive Body.MadeOf : ContentKind → Option Content → Body → Prop
  | noInline : MadeOf .inline Option.none (.inline (.ofInline .empty))
  | inline (content : Inline) :
      MadeOf .inline (some (.inline content)) (.inline (.ofInline content))
  | noTable : MadeOf .table Option.none (.table [] [])
  | table {given : Table} {rows : List (List CellPlan)}
      (taken : given.rows.mapM (fun row => row.mapM Cell.plan) = .ok rows) :
      MadeOf .table (some (.table given)) (.table (given.columnWidths.map Scalar.ofWidth) rows)
  | none : MadeOf .none Option.none .none

theorem Body.madeOf_content {type : BlockType} {content : Option Content} {body : Body}
    (planned : ofContent type content = .ok body) : MadeOf type.contentKind content body := by
  rw [ofContent.eq_def] at planned
  split at planned
  · next kind =>
      cases planned
      rw [kind]
      exact .noInline
  · next content kind =>
      cases planned
      rw [kind]
      exact .inline content
  · next kind =>
      cases planned
      rw [kind]
      exact .noTable
  · next table kind =>
      obtain ⟨rows, taken, planned⟩ := bind_eq_ok.mp planned
      cases planned
      rw [kind]
      exact .table taken
  · next kind =>
      cases planned
      rw [kind]
      exact .none
  all_goals cases planned

theorem Body.MadeOf.shown {kind : ContentKind} {content : Option Content} {body : Body}
    (made : MadeOf kind content body) :
    ContentShown kind content body.text? body.columnWidths? body.rows? := by
  cases made with
  | noInline => exact .noInline (Inline.shown_view _)
  | inline content => exact .inline content.shown_view
  | noTable => exact .noTable
  | none => exact .none
  | table taken =>
      refine .table ?_
      rw [List.forall₂_map_right_iff]
      refine (forall₂_of_mapM taken).imp fun row plans taken => ?_
      rw [List.forall₂_map_right_iff]
      exact (forall₂_of_mapM taken).imp fun cell plan taken => Cell.shown_of_plan taken

/-! ## Blocks -/

/-- What the plan of a block is made of. -/
theorem Plan.ofBlock_eq_ok {store : String} {path : List Nat} {block : Block} {plan : Plan}
    (planned : ofBlock store path block = .ok plan) :
    BlockType.ofName? block.type = some plan.type ∧
      plan.id = block.id.getD (Identifier.derive store path) ∧
      (PropOwner.block plan.type).planProps block.props = .ok plan.props ∧
      Body.ofContent plan.type block.content = .ok plan.body ∧
      ofBlocks store path 0 block.children = .ok plan.children := by
  obtain ⟨id, name, given, content, blocks⟩ := block
  rw [ofBlock] at planned
  cases known : BlockType.ofName? name with
  | none =>
      rw [known] at planned
      cases planned
  | some type =>
      rw [known] at planned
      obtain ⟨props, takenProps, planned⟩ := bind_eq_ok.mp planned
      obtain ⟨body, takenBody, planned⟩ := bind_eq_ok.mp planned
      obtain ⟨children, takenChildren, planned⟩ := bind_eq_ok.mp planned
      cases planned
      exact ⟨rfl, rfl, takenProps, takenBody, takenChildren⟩

theorem Plan.ofBlocks_nil_eq_ok {store : String} {path : List Nat} {index : Nat}
    {plans : List Plan} (planned : ofBlocks store path index [] = .ok plans) : plans = [] := by
  rw [ofBlocks] at planned
  cases planned
  rfl

theorem Plan.ofBlocks_cons_eq_ok {store : String} {path : List Nat} {index : Nat} {block : Block}
    {blocks : List Block} {plans : List Plan}
    (planned : ofBlocks store path index (block :: blocks) = .ok plans) :
    ∃ plan rest, plans = plan :: rest ∧ ofBlock store (path ++ [index]) block = .ok plan ∧
      ofBlocks store path (index + 1) blocks = .ok rest := by
  rw [ofBlocks] at planned
  obtain ⟨plan, taken, planned⟩ := bind_eq_ok.mp planned
  obtain ⟨rest, takenRest, planned⟩ := bind_eq_ok.mp planned
  cases planned
  exact ⟨plan, rest, rfl, taken, takenRest⟩

mutual

theorem Plan.stored_of_block {store : String} : (block : Block) → {path : List Nat} →
    {plan : Plan} → Plan.ofBlock store path block = .ok plan →
    StoredBlock store path block plan.view
  | ⟨id, name, given, content, blocks⟩, path, plan, planned => by
      obtain ⟨known, derived, props, body, children⟩ := ofBlock_eq_ok planned
      have stored := stored_of_blocks blocks children
      obtain ⟨_, type, _, _, _⟩ := plan
      rw [view]
      exact .intro known derived (BlockType.name_of_ofName? known)
        (PropOwner.shown_of_planProps props) (Body.madeOf_content body).shown stored

theorem Plan.stored_of_blocks {store : String} : (blocks : List Block) → {path : List Nat} →
    {index : Nat} → {plans : List Plan} → Plan.ofBlocks store path index blocks = .ok plans →
    StoredBlocks store path index blocks (plans.map Plan.view)
  | [], path, index, plans, planned => by
      rw [ofBlocks_nil_eq_ok planned]
      exact .nil
  | block :: blocks, path, index, plans, planned => by
      obtain ⟨plan, rest, rfl, taken, takenRest⟩ := ofBlocks_cons_eq_ok planned
      exact .cons (stored_of_block block taken) (stored_of_blocks blocks takenRest)

end

theorem storedBlocks_of_construct {store : String} {blocks : List Block}
    {operations : List Operation} (constructed : construct store blocks = .ok operations) :
    ∃ views, readBlocks? operations store = some views ∧ StoredBlocks store [] 0 blocks views := by
  obtain ⟨plans, planned, constructed⟩ := bind_eq_ok.mp constructed
  cases constructed
  exact ⟨plans.map Plan.view, readBlocks?_store store plans, Plan.stored_of_blocks blocks planned⟩

theorem isSome_replay?_of_construct {store : String} {blocks : List Block}
    {operations : List Operation} (constructed : construct store blocks = .ok operations) :
    (Heap.replay? operations).isSome := by
  obtain ⟨views, read, -⟩ := storedBlocks_of_construct constructed
  obtain ⟨heap, replayed, -⟩ := Option.bind_eq_some_iff.mp read
  rw [replayed, Option.isSome_some]

theorem Format.load?_save_of_construct (format : Format) (actor : Actor) {store : String}
    {blocks : List Block} {operations : List Operation}
    (constructed : construct store blocks = .ok operations) :
    format.load? (format.save actor operations) = some (actor, operations) :=
  format.load?_save actor operations (isSome_replay?_of_construct constructed)

/-- A document that is saved and loaded again shows the blocks it was constructed from. -/
theorem construct_roundTrip (format : Format) (store : String) (actor : Actor)
    (blocks : List Block) (operations : List Operation)
    (constructed : construct store blocks = .ok operations) :
    ∃ views, format.load? (format.save actor operations) = some (actor, operations) ∧
      readBlocks? operations store = some views ∧
      StoredBlocks store [] 0 blocks views := by
  obtain ⟨views, read, stored⟩ := storedBlocks_of_construct constructed
  exact ⟨views, format.load?_save_of_construct actor constructed, read, stored⟩

def sampleBlocks : List Block :=
  let link : Link := ⟨"https://example.org", .runs [⟨"there", { Styles.plain with bold := true }⟩]⟩
  let cell : Cell := .full (.ofList [("colspan", .ofUInt32 2)]) (.text "x")
  [⟨some "top", "heading", .ofList [("level", .ofUInt32 2)],
    some (.inline (.items [.plain "Hi ", .link link])),
    [⟨none, "table", .empty, some (.table ⟨[none], [[cell], []]⟩), []⟩]⟩]

theorem construct_roundTrip_sample : ∃ operations,
    construct "notes" sampleBlocks = .ok operations ∧
    ∃ views, Payload.decode? (Payload.encode [1, 2] operations) = some ([1, 2], operations) ∧
      readBlocks? operations "notes" = some views ∧
      StoredBlocks "notes" [] 0 sampleBlocks views :=
  ⟨_, rfl, construct_roundTrip .payload "notes" [1, 2] sampleBlocks _ rfl⟩

end BlockScribe
