import BlockScribe.Proofs.Document.RoundTrip
import BlockScribe.Proofs.Document.UniqueReading

/-!
# Payloads identify documents

Two lists of blocks may be written differently and still mean one document: a
prop may be given or left to its default, a text may be cut into runs in more
than one way, an id may be the one that would be derived.  What is left when
all of that is decided is the normal form.  Payloads are equal just where
actor, name and normal forms are.
-/

namespace BlockScribe

/-! ## Normal forms -/

structure NormalCell where
  props : String → Option Scalar
  content : FlatText

inductive NormalContent where
  | inline (content : FlatText)
  | table (columnWidths : List (Option Double)) (rows : List (List NormalCell))
  | none

/-- The type is missing where a block names none that there is. -/
structure NormalForm where
  id : String
  type : Option BlockType
  props : String → Option Scalar
  content : NormalContent
  children : List NormalForm

/-- A prop that is given, or else its default. -/
def PropOwner.finalProp? (owner : PropOwner) (given : SortedMap Json) (name : String) :
    Option Scalar :=
  ((given.get? name).or (owner.defaultProps.lookup name)).bind Scalar.ofJson?

def Cell.normal (cell : Cell) : NormalCell :=
  ⟨PropOwner.cell.finalProp? cell.props, .ofInline cell.content⟩

def NormalContent.ofContent : ContentKind → Option Content → NormalContent
  | .inline, some (.inline content) => .inline (.ofInline content)
  | .inline, _ => .inline (.ofInline .empty)
  | .table, some (.table given) =>
      .table given.columnWidths (given.rows.map (·.map Cell.normal))
  | .table, _ => .table [] []
  | .none, _ => .none

namespace Block

mutual

/-- The normal form of the block that stands at `path`. -/
def normalForm (store : String) (path : List Nat) : Block → NormalForm
  | ⟨id, name, given, content, blocks⟩ =>
      let type := BlockType.ofName? name
      { id := id.getD (Identifier.derive store path)
        type := type
        props := fun prop => type.bind fun type => (PropOwner.block type).finalProp? given prop
        content := type.elim .none fun type => .ofContent type.contentKind content
        children := normalForms store path 0 blocks }

/-- The normal forms of blocks below `path`, the first of them at `index`. -/
def normalForms (store : String) (path : List Nat) (index : Nat) : List Block → List NormalForm
  | [] => []
  | block :: blocks =>
      normalForm store (path ++ [index]) block :: normalForms store path (index + 1) blocks

end

end Block

/-! ## Plans of normal forms -/

variable {store store' : String}

theorem PropOwner.get?_of_planProps {owner : PropOwner} {given : SortedMap Json}
    {props : SortedMap Scalar} (planned : owner.planProps given = .ok props) :
    props.get? = owner.finalProp? given := by
  obtain ⟨_, _, planned⟩ := bind_eq_ok.mp planned
  cases planned
  funext name
  rw [SortedMap.get?_filterMapValues, get?_allProps, finalProp?]

def CellPlan.normal (plan : CellPlan) : NormalCell :=
  ⟨plan.props.get?, plan.content⟩

theorem CellPlan.normal_injective : Function.Injective normal := by
  rintro ⟨props, content⟩ ⟨props', content'⟩ same
  obtain ⟨gets, contents⟩ := NormalCell.mk.inj same
  exact CellPlan.mk.injEq .. ▸ ⟨SortedMap.eq_iff_get?.mpr gets, contents⟩

theorem Cell.normal_of_plan {cell : Cell} {plan : CellPlan} (planned : cell.plan = .ok plan) :
    plan.normal = cell.normal := by
  obtain ⟨props, taken, planned⟩ := bind_eq_ok.mp planned
  cases planned
  rw [CellPlan.normal, Cell.normal, PropOwner.get?_of_planProps taken]

theorem Scalar.ofWidth_injective : Function.Injective ofWidth := by
  intro width width' same
  cases width <;> cases width' <;> cases same <;> rfl

/-- Which body is planned for a normal content; of tables the widths have become scalars. -/
inductive Body.Planned : Body → NormalContent → Prop
  | inline (content : FlatText) : Planned (.inline content) (.inline content)
  | table (widths : List (Option Double)) (plans : List (List CellPlan)) :
      Planned (.table (widths.map Scalar.ofWidth) plans)
        (.table widths (plans.map (·.map CellPlan.normal)))
  | none : Planned .none .none

theorem Body.Planned.eq_iff {body body' : Body} {content content' : NormalContent}
    (planned : body.Planned content) (planned' : body'.Planned content') :
    body = body' ↔ content = content' := by
  have cells : Function.Injective (List.map (List.map CellPlan.normal)) :=
    (CellPlan.normal_injective.list_map).list_map
  cases planned <;> cases planned' <;>
    simp [Scalar.ofWidth_injective.list_map.eq_iff, cells.eq_iff]

theorem Body.MadeOf.planned {kind : ContentKind} {content : Option Content} {body : Body}
    (made : MadeOf kind content body) : body.Planned (.ofContent kind content) := by
  cases made with
  | noInline => exact .inline _
  | inline => exact .inline _
  | noTable => exact .table [] []
  | none => exact .none
  | table taken =>
      have cells := map_of_mapM (fun _ _ => map_of_mapM fun _ _ => Cell.normal_of_plan) taken
      rw [NormalContent.ofContent, ← cells]
      exact .table _ _

/-! ## Blocks -/

mutual

theorem Plan.eq_iff_normalForm : (block : Block) → {path path' : List Nat} → {block' : Block} →
    {plan plan' : Plan} → ofBlock store path block = .ok plan →
    ofBlock store' path' block' = .ok plan' →
    (plan = plan' ↔ block.normalForm store path = block'.normalForm store' path')
  | ⟨id, name, given, content, blocks⟩, path, path', ⟨id', name', given', content', blocks'⟩,
    plan, plan', planned, planned' => by
      obtain ⟨known, final, props, body, children⟩ := ofBlock_eq_ok planned
      obtain ⟨known', final', props', body', children'⟩ := ofBlock_eq_ok planned'
      have below := eq_iff_normalForms blocks children children'
      obtain ⟨_, type, _, _, _⟩ := plan
      obtain ⟨_, type', _, _, _⟩ := plan'
      simp only at known known' final final' body body' below
      simp only [Block.normalForm, known, known', final, final', Plan.mk.injEq,
        NormalForm.mk.injEq, Option.some_inj, Option.bind_some, Option.elim_some, ← below]
      -- Props and contents can be compared once the types are the same.
      refine and_congr_right fun _ => and_congr_right ?_
      rintro rfl
      rw [SortedMap.eq_iff_get?, PropOwner.get?_of_planProps props,
        PropOwner.get?_of_planProps props',
        (Body.madeOf_content body).planned.eq_iff (Body.madeOf_content body').planned]

theorem Plan.eq_iff_normalForms : (blocks : List Block) → {path path' : List Nat} →
    {index index' : Nat} → {blocks' : List Block} → {plans plans' : List Plan} →
    ofBlocks store path index blocks = .ok plans →
    ofBlocks store' path' index' blocks' = .ok plans' →
    (plans = plans' ↔
      Block.normalForms store path index blocks = Block.normalForms store' path' index' blocks')
  | [], _, _, _, _, [], plans, plans', planned, planned' => by
      rw [ofBlocks_nil_eq_ok planned, ofBlocks_nil_eq_ok planned']
      simp [Block.normalForms]
  | [], _, _, _, _, _ :: _, plans, plans', planned, planned' => by
      obtain ⟨_, _, rfl, -, -⟩ := ofBlocks_cons_eq_ok planned'
      rw [ofBlocks_nil_eq_ok planned]
      simp [Block.normalForms]
  | _ :: _, _, _, _, _, [], plans, plans', planned, planned' => by
      obtain ⟨_, _, rfl, -, -⟩ := ofBlocks_cons_eq_ok planned
      rw [ofBlocks_nil_eq_ok planned']
      simp [Block.normalForms]
  | block :: blocks, _, _, _, _, _ :: _, plans, plans', planned, planned' => by
      obtain ⟨_, _, rfl, first, rest⟩ := ofBlocks_cons_eq_ok planned
      obtain ⟨_, _, rfl, first', rest'⟩ := ofBlocks_cons_eq_ok planned'
      rw [Block.normalForms, Block.normalForms, List.cons.injEq, List.cons.injEq,
        eq_iff_normalForm block first first', eq_iff_normalForms blocks rest rest']

end

/-! ## Documents that are saved -/

/-- In any format two documents are saved alike just where they have one actor, one name and one
normal form. -/
theorem construct_payload_eq_iff (format : Format) (actor actor' : Actor) (store store' : String)
    (blocks blocks' : List Block) (operations operations' : List Operation)
    (constructed : construct store blocks = .ok operations)
    (constructed' : construct store' blocks' = .ok operations') :
    format.save actor operations = format.save actor' operations' ↔
      actor = actor' ∧ store = store' ∧
        Block.normalForms store [] 0 blocks = Block.normalForms store' [] 0 blocks' := by
  rw [format.save_inj (isSome_replay?_of_construct constructed)
    (isSome_replay?_of_construct constructed')]
  obtain ⟨plans, planned, constructed⟩ := bind_eq_ok.mp constructed
  obtain ⟨plans', planned', constructed'⟩ := bind_eq_ok.mp constructed'
  cases constructed
  cases constructed'
  rw [Script.store_inj, Plan.eq_iff_normalForms blocks planned planned']

def briefHeading : List Block :=
  [⟨none, "heading", .empty, some (.inline (.text "Here")), []⟩]

/-- The same heading, with its level spelled out and its text in two runs. -/
def spelledHeading : List Block :=
  [⟨none, "heading", .ofList [("level", .ofUInt32 1)],
    some (.inline (.items [.plain "He", .plain "re"])), []⟩]

theorem normalForms_spelledHeading :
    Block.normalForms "notes" [] 0 spelledHeading =
      Block.normalForms "notes" [] 0 briefHeading := by
  have content : FlatText.ofInline (.items [.plain "He", .plain "re"]) =
      FlatText.ofInline (.text "Here") := by decide
  have props : (PropOwner.block .heading).finalProp? (.ofList [("level", .ofUInt32 1)]) =
      (PropOwner.block .heading).finalProp? .empty := by
    funext prop
    have distinct : ([("level", Json.ofUInt32 1)].map (·.1)).Nodup := by decide
    have given := SortedMap.get?_ofList distinct prop
    by_cases here : prop = "level"
    · subst here
      rfl
    · simp [PropOwner.finalProp?, given, SortedMap.lookup_cons_ite, here]
  have known : BlockType.ofName? "heading" = some .heading := BlockType.ofName?_name .heading
  simp only [spelledHeading, briefHeading, Block.normalForms, Block.normalForm, known,
    Option.bind_some, Option.elim_some, props, BlockType.contentKind, NormalContent.ofContent,
    content]

theorem construct_payload_eq_iff_sample : ∃ operations operations',
    construct "notes" spelledHeading = .ok operations ∧
    construct "notes" briefHeading = .ok operations' ∧
    Payload.encode [7] operations = Payload.encode [7] operations' :=
  ⟨_, _, rfl, rfl, (construct_payload_eq_iff .payload [7] [7] "notes" "notes" spelledHeading
    briefHeading _ _ rfl rfl).mpr ⟨rfl, rfl, normalForms_spelledHeading⟩⟩

end BlockScribe
