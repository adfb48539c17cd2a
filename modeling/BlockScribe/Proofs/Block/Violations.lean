import BlockScribe.Document.Script
import BlockScribe.Proofs.Result
import BlockScribe.Proofs.Text.ByteOrder

/-!
# Violations of the schema

Everything that is wrong with a list of blocks, in the order of the text: a
block before the blocks below it, and those before its next sibling.  Inside a
block an unknown type comes first, then its props by name, then its content.
A construction stops at the first violation and reports that one.
-/

namespace BlockScribe

/-! ## Violations -/

def PropOwner.violation? (owner : PropOwner) (prop : String) (value : Json) :
    Option SchemaError :=
  if !value.isScalar then some (.invalidProp owner prop .scalar)
  else
    match owner.rule? prop with
    | some rule => if rule.holds value then none else some (.invalidProp owner prop rule)
    | none => none

def PropOwner.violations (owner : PropOwner) (props : SortedMap Json) : List SchemaError :=
  props.entries.flatMap fun (prop, value) => (owner.violation? prop value).toList

def Table.violations (table : Table) : List SchemaError :=
  table.rows.flatMap fun row => row.flatMap fun cell => PropOwner.cell.violations cell.props

def Content.violations (type : BlockType) : Content → List SchemaError
  | .malformed _ => [.malformedContent type]
  | .inline _ => if type.contentKind = .inline then [] else [.unexpectedInline type]
  | .table given =>
      if type.contentKind = .table then given.violations else [.unexpectedTable type]

/-- What is wrong with a block itself, the blocks below it left aside. -/
def Block.violations (block : Block) : List SchemaError :=
  match BlockType.ofName? block.type with
  | none => [.unknownType block.type]
  | some type =>
      (PropOwner.block type).violations block.props ++
        match block.content with
        | none => []
        | some content => content.violations type

mutual

/-- A block, and behind it the blocks below it. -/
def Block.preorder : Block → List Block
  | ⟨id, type, props, content, children⟩ =>
      ⟨id, type, props, content, children⟩ :: Block.preorders children

def Block.preorders : List Block → List Block
  | [] => []
  | block :: blocks => block.preorder ++ Block.preorders blocks

end

/-! ## Reports of violations -/

theorem PropOwner.checkProp_reports (owner : PropOwner) (prop : String) (value : Json) :
    Reports (owner.checkProp prop value) (owner.violation? prop value).toList := by
  rw [checkProp, rules, List.find?_cons, violation?]
  have first : PropRule.scalar.holds value = value.isScalar := rfl
  by_cases scalar : value.isScalar
  · cases known : owner.rule? prop with
    | none => simp [first, scalar, Reports]
    | some rule => by_cases kept : rule.holds value <;> simp [first, scalar, kept, Reports]
  · simp [first, scalar, Reports]

theorem PropOwner.checkProps_reports (owner : PropOwner) (props : SortedMap Json) :
    Reports (owner.checkProps props) (owner.violations props) :=
  Reports.forM fun entry _ => owner.checkProp_reports entry.1 entry.2

theorem PropOwner.planProps_reports (owner : PropOwner) (given : SortedMap Json) :
    Reports (owner.planProps given) (owner.violations given) :=
  (owner.checkProps_reports given).map _

theorem Body.ofTable_reports (table : Table) : Reports (ofTable table) table.violations := by
  refine Reports.map (Reports.mapM fun row _ => Reports.mapM fun cell _ => ?_) _
  exact (PropOwner.cell.planProps_reports cell.props).map _

theorem Body.ofContent_reports (type : BlockType) (content : Option Content) :
    Reports (ofContent type content)
      (match content with
        | Option.none => []
        | some content => content.violations type) := by
  rw [ofContent.eq_def]
  cases kind : type.contentKind with
  | inline => rcases content with _ | _ | _ | _ <;> simp [Content.violations, kind, Reports]
  | none => rcases content with _ | _ | _ | _ <;> simp [Content.violations, kind, Reports]
  | table =>
      rcases content with _ | _ | table | _
      · simp [Reports]
      · simp [Content.violations, kind, Reports]
      · simpa [Content.violations, kind] using ofTable_reports table
      · simp [Content.violations, Reports]

mutual

theorem Plan.ofBlock_reports (store : String) (path : List Nat) : (block : Block) →
    Reports (Plan.ofBlock store path block) (block.preorder.flatMap Block.violations)
  | ⟨id, name, given, content, blocks⟩ => by
      rw [ofBlock, Block.preorder, List.flatMap_cons, Block.violations]
      cases known : BlockType.ofName? name with
      | none => exact .of_error _
      | some type =>
          rw [List.append_assoc]
          apply Reports.bind ((PropOwner.block type).planProps_reports given)
          intro props _
          apply Reports.bind (Body.ofContent_reports type content)
          intro body _
          exact (ofBlocks_reports store path 0 blocks).map _

theorem Plan.ofBlocks_reports (store : String) (path : List Nat) (index : Nat) :
    (blocks : List Block) → Reports (Plan.ofBlocks store path index blocks)
      ((Block.preorders blocks).flatMap Block.violations)
  | [] => by
      rw [ofBlocks, Block.preorders]
      exact .of_ok _
  | block :: blocks => by
      rw [ofBlocks, Block.preorders, List.flatMap_append]
      apply Reports.bind (ofBlock_reports store (path ++ [index]) block)
      intro plan _
      exact (ofBlocks_reports store path (index + 1) blocks).map _

end

theorem construct_reports (store : String) (blocks : List Block) :
    Reports (construct store blocks) ((Block.preorders blocks).flatMap Block.violations) :=
  (Plan.ofBlocks_reports store [] 0 blocks).map _

/-- Content of neither shape is reported on its block, unless there is a violation before it. -/
theorem construct_malformed (store : String) {blocks before after : List Block} {block : Block}
    {type : BlockType} {value : Json} (cut : Block.preorders blocks = before ++ block :: after)
    (known : BlockType.ofName? block.type = some type)
    (malformed : block.content = some (.malformed value)) :
    construct store blocks = .error
      ((before.flatMap Block.violations ++
        (PropOwner.block type).violations block.props).headD (.malformedContent type)) := by
  have here : block.violations =
      (PropOwner.block type).violations block.props ++ [.malformedContent type] := by
    rw [Block.violations, known, malformed]
    rfl
  rw [(construct_reports store blocks).error_iff, cut, List.flatMap_append, List.flatMap_cons,
    here, ← List.append_assoc, ← List.append_assoc, List.append_assoc _ [_] _]
  cases before.flatMap Block.violations ++ (PropOwner.block type).violations block.props <;> rfl

/--
A construction succeeds if no block violates the schema.  If one does, the first
such block in the order of the text is reported, by the first of its violations;
names are in the order of their bytes.
-/
theorem construct_firstViolation (store : String) (blocks : List Block) :
    ((∃ operations, construct store blocks = .ok operations) ↔
      ∀ block ∈ Block.preorders blocks, block.violations = []) ∧
    (∀ error, construct store blocks = .error error ↔
      ∃ before block after, Block.preorders blocks = before ++ block :: after ∧
        (∀ earlier ∈ before, earlier.violations = []) ∧
        block.violations.head? = some error) ∧
    ∀ props : SortedMap Json, props.entries.Pairwise fun a b => utf8 a.1 < utf8 b.1 := by
  have reports := construct_reports store blocks
  refine ⟨?_, fun error => ?_, fun props => props.ascending.imp fun below => utf8_lt below⟩
  · rw [reports.ok_iff, List.flatMap_eq_nil_iff]
  · rw [reports.error_iff, List.head?_flatMap, List.findSome?_eq_some_iff]
    simp only [List.head?_eq_none_iff]
    constructor
    · rintro ⟨before, block, after, cut, found, clean⟩
      exact ⟨before, block, after, cut, clean, found⟩
    · rintro ⟨before, block, after, cut, clean, found⟩
      exact ⟨before, block, after, cut, found, clean⟩

example : construct "notes" [⟨none, "heading", .ofList [("level", .ofUInt32 9)], none,
      [⟨none, "poem", .empty, none, []⟩]⟩] =
    .error (.invalidProp (.block .heading) "level" .headingLevel) := rfl

end BlockScribe
