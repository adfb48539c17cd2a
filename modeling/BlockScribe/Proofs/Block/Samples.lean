import BlockScribe.Proofs.Block.Values
import BlockScribe.Proofs.Document.RoundTrip
import BlockScribe.Record.Sample

/-!
# Sample blocks

The values that sample blocks can be, and the blocks they are read as.  Every
character of a sample comes from one item, and has the marks of that item.
-/

namespace BlockScribe.Sample

/-! ## Items -/

def flagNames : List String :=
  ["bold", "italic", "underline", "strike", "code"]

def colorNames : List String :=
  ["textColor", "backgroundColor"]

/-- A value of the type that a style has by its name; a color may be null for none. -/
inductive IsStyle (name : String) : Json → Prop
  | flag (known : name ∈ flagNames) (on : Bool) : IsStyle name (.bool on)
  | color (known : name ∈ colorNames) (color : String) : IsStyle name (.string color)
  | noColor (known : name ∈ colorNames) : IsStyle name .null

/-- An object of styles. -/
structure Sheet where
  members : SortedMap Json
  known : ∀ name value, members.get? name = some value → IsStyle name value

inductive Item where
  | text (content : String)
  | styled (content : String) (sheet : Sheet)
  | link (href content : String)

def markOf? : Json → Option Scalar
  | .bool true => some (.bool true)
  | .string color => some (.text color)
  | _ => none

namespace Item

def json : Item → Json
  | .text content => .string content
  | .styled content sheet => Sample.styled content (.ofMap sheet.members)
  | .link href content => Sample.link href content

def content : Item → String
  | .text content | .styled content _ | .link _ content => content

/-- The value of the mark that an item puts on each of its characters. -/
def mark? (name : String) : Item → Option Scalar
  | .text _ => none
  | .styled _ sheet => (sheet.members.get? name).bind markOf?
  | .link href _ => if name = linkMark then some (.text href) else none

end Item

/-- The characters of items, each with the item that it comes from. -/
def letters (items : List Item) : List (Char × Item) :=
  items.flatMap fun item => item.content.toList.map (·, item)

/-! ## Styles -/

def flagOf : Option Json → Bool
  | some (.bool on) => on
  | _ => false

def colorOf : Option Json → Option String
  | some (.string color) => some color
  | _ => none

namespace Sheet

def styles (sheet : Sheet) : Styles where
  bold := flagOf (sheet.members.get? "bold")
  italic := flagOf (sheet.members.get? "italic")
  underline := flagOf (sheet.members.get? "underline")
  strike := flagOf (sheet.members.get? "strike")
  code := flagOf (sheet.members.get? "code")
  textColor := colorOf (sheet.members.get? "textColor")
  backgroundColor := colorOf (sheet.members.get? "backgroundColor")

variable (sheet : Sheet) {name : String}

theorem flag?_get? (known : name ∈ flagNames) :
    Styles.flag? (sheet.members.get? name) = some (flagOf (sheet.members.get? name)) ∧
      (if flagOf (sheet.members.get? name) then some (Scalar.bool true) else none) =
        (sheet.members.get? name).bind markOf? := by
  have noColor : name ∉ colorNames := fun other => by
    simp only [flagNames, colorNames, List.mem_cons, List.not_mem_nil, or_false] at known other
    rcases other with rfl | rfl <;> simp at known
  cases found : sheet.members.get? name with
  | none => exact ⟨rfl, rfl⟩
  | some value =>
      cases sheet.known name value found with
      | flag _ on => cases on <;> exact ⟨rfl, rfl⟩
      | color other | noColor other => exact absurd other noColor

theorem color?_get? (known : name ∈ colorNames) :
    Styles.color? (sheet.members.get? name) = some (colorOf (sheet.members.get? name)) ∧
      (colorOf (sheet.members.get? name)).map .text =
        (sheet.members.get? name).bind markOf? := by
  have noFlag : name ∉ flagNames := fun other => by
    simp only [flagNames, colorNames, List.mem_cons, List.not_mem_nil, or_false] at known other
    rcases known with rfl | rfl <;> simp at other
  cases found : sheet.members.get? name with
  | none => exact ⟨rfl, rfl⟩
  | some value =>
      cases sheet.known name value found with
      | color | noColor => exact ⟨rfl, rfl⟩
      | flag other => exact absurd other noFlag

theorem ofJson?_ofMap : Styles.ofJson? (.ofMap sheet.members) = some sheet.styles := by
  rw [Styles.ofJson?, Json.ofMap, Json.fields?_object sheet.members.nodup_names]
  simp only [← SortedMap.get?.eq_1, List.map_cons, List.map_nil, Option.bind_eq_bind,
    Option.bind_some, Option.pure_def]
  have flag {name : String} (known : name ∈ flagNames) := (sheet.flag?_get? known).1
  have color {name : String} (known : name ∈ colorNames) := (sheet.color?_get? known).1
  rw [flag (by decide), flag (by decide), flag (by decide), flag (by decide), flag (by decide),
    color (by decide), color (by decide)]
  rfl

theorem mark?_styles (name : String) :
    sheet.styles.mark? name = (sheet.members.get? name).bind markOf? := by
  unfold Styles.mark?
  split
  case h_8 =>
    cases found : sheet.members.get? name with
    | none => rfl
    | some value => cases sheet.known name value found <;> simp_all [flagNames, colorNames]
  all_goals first
    | exact (sheet.flag?_get? (by decide)).2
    | exact (sheet.color?_get? (by decide)).2

theorem isPlain_ofMap (depth : Nat) : (Json.ofMap sheet.members).IsPlain (depth + 1) := by
  refine .object fun ⟨name, value⟩ listed => ?_
  cases sheet.known name value ((SortedMap.mem_entries_iff _ _).mp listed) with
  | flag _ on => exact .bool on
  | color _ color => exact .string color
  | noColor => exact .null

theorem unrepeated_ofMap : (Json.ofMap sheet.members).Unrepeated := by
  refine .object sheet.members.nodup_names fun ⟨name, value⟩ listed => .scalar ?_
  cases sheet.known name value ((SortedMap.mem_entries_iff _ _).mp listed) <;> rfl

end Sheet

/-! ## Items as they are read -/

namespace Item

def inline : Item → InlineItem
  | .text content => .plain content
  | .styled content sheet => .run ⟨content, sheet.styles⟩
  | .link href content => .link ⟨href, .text content⟩

theorem ofJson?_json (item : Item) : InlineItem.ofJson? item.json = some item.inline := by
  cases item with
  | text content => rfl
  | link href content => rfl
  | styled content sheet =>
      show InlineItem.run <$> (do return ⟨content, ← Styles.ofJson? (.ofMap sheet.members)⟩) = _
      rw [sheet.ofJson?_ofMap]
      rfl

def styles : Item → Styles
  | .styled _ sheet => sheet.styles
  | .text _ | .link .. => .plain

def styledChar : Char × Item → StyledChar
  | (char, item) => ⟨char, item.styles, item.inline.href?⟩

theorem mark?_plain (name : String) : Styles.plain.mark? name = none := by
  unfold Styles.mark?
  split <;> rfl

theorem mark?_styledChar (letter : Char × Item) (name : String) :
    (styledChar letter).mark? name = letter.2.mark? name := by
  obtain ⟨char, item⟩ := letter
  cases item with
  | text content => simp [StyledChar.mark?, styledChar, styles, mark?, mark?_plain, inline,
      InlineItem.href?]
  | link href content => simp [StyledChar.mark?, styledChar, styles, mark?, mark?_plain, inline,
      InlineItem.href?]
  | styled content sheet =>
      rw [StyledChar.mark?]
      split
      · next link =>
          rw [mark?, ← sheet.mark?_styles, link]
          rfl
      · exact sheet.mark?_styles name

theorem texts_inline (item : Item) : item.inline.runs.map Run.text = [item.content] := by
  cases item <;> rfl

theorem styledChars_inline (item : Item) :
    item.inline.styledChars = (item.content.toList.map (·, item)).map styledChar := by
  cases item <;> simp [InlineItem.styledChars, InlineItem.runs, Link.runs, Run.styledChars,
    Run.plain, inline, content, styledChar, styles]

theorem isPlain_json (item : Item) : item.json.IsPlain 2 := by
  cases item with
  | text content => exact .string content
  | link href content => exact .object (by simp [Json.IsPlain.string])
  | styled content sheet =>
      have styles := sheet.isPlain_ofMap 0
      exact .object (by simp [Json.IsPlain.string, styles])

theorem unrepeated_json (item : Item) : item.json.Unrepeated := by
  have string (text : String) : (Json.string text).Unrepeated := .scalar rfl
  cases item with
  | text content => exact string content
  | link href content => exact .object (by simp) (by simp [string])
  | styled content sheet =>
      have styles := sheet.unrepeated_ofMap
      exact .object (by simp) (by simp [string, styles])

end Item

theorem styledChars_letters {content : Inline} {items : List Item}
    (same : content.toItems = items.map Item.inline) :
    content.styledChars = (letters items).map Item.styledChar := by
  rw [Inline.styledChars, same, letters, List.map_flatMap, List.flatMap_map]
  simp only [Item.styledChars_inline]

/-! ## Calls -/

/-- A call to build a block; items go to blocks of types that have inline content. -/
inductive Call where
  | paragraph (content : String)
  | heading (level : UInt8) (content : String)
  | block (kind : BlockType) (isInline : kind.contentKind = .inline) (items : List Item)

namespace Call

def json : Call → Json
  | .paragraph content => Sample.paragraph content
  | .heading level content => Sample.heading level content
  | .block kind _ items => Sample.block kind.name (.array (items.map Item.json))

def kind : Call → BlockType
  | .paragraph _ => .paragraph
  | .heading .. => .heading
  | .block kind .. => kind

def items : Call → List Item
  | .paragraph content | .heading _ content => [.text content]
  | .block _ _ items => items

def props : Call → SortedMap Json
  | .heading level _ => .ofList [("level", .ofUInt32 level.toUInt32)]
  | .paragraph _ | .block .. => .empty

def inline : Call → Inline
  | .paragraph content | .heading _ content => .text content
  | .block _ _ items => .items (items.map Item.inline)

def made (call : Call) : Block :=
  ⟨none, call.kind.name, call.props, some (.inline call.inline), []⟩

theorem toItems_inline (call : Call) : call.inline.toItems = call.items.map Item.inline := by
  cases call <;> rfl

theorem contentOfJson?_items (items : List Item) :
    Block.contentOfJson? (.array (items.map Item.json)) =
      some (some (.inline (.items (items.map Item.inline)))) := by
  have read : (items.map Item.json).mapM InlineItem.ofJson? = some (items.map Item.inline) :=
    Heap.mapM_of_forall₂ (List.forall₂_map_left_iff.mpr
      (List.forall₂_same.mpr fun item _ => item.ofJson?_json))
  rw [Block.contentOfJson?, Content.ofJson, Inline.ofJson?, read]
  · rfl
  · rintro ⟨⟩

theorem ofJson?_json (depth : Nat) (call : Call) :
    Block.ofJson? (depth + 1) call.json = some call.made := by
  rw [Block.ofJson?]
  cases call with
  | paragraph content => rfl
  | heading level content => rfl
  | block kind isInline items =>
      show Block.Draft.block <$> (do
        let content ← Block.contentOfJson? (.array (items.map Item.json))
        return ⟨none, some kind.name, none, some content, none⟩) = _
      rw [contentOfJson?_items]
      rfl

theorem listOfJson?_json (depth : Nat) (calls : List Call) :
    Block.listOfJson? (depth + 2) (.array (calls.map json)) = some (calls.map made) := by
  rw [Block.listOfJson?]
  exact Heap.mapM_of_forall₂ (List.forall₂_map_left_iff.mpr
    (List.forall₂_same.mpr fun call _ => call.ofJson?_json depth))

/-! ### Values of calls -/

theorem isPlain_json (call : Call) : call.json.IsPlain 4 := by
  cases call with
  | paragraph content => exact .object (by simp [Json.IsPlain.string])
  | heading level content =>
      have number : (Json.ofUInt32 level.toUInt32).IsPlain 2 := .integer _ _
      have props : (Json.object [("level", .ofUInt32 level.toUInt32)]).IsPlain 3 :=
        .object (by simpa using number)
      exact .object (by simp [Json.IsPlain.string, props])
  | block kind isInline items =>
      have array : (Json.array (items.map Item.json)).IsPlain 3 :=
        .array (by simpa using fun item _ => item.isPlain_json)
      exact .object (by simp [Json.IsPlain.string, array])

theorem unrepeated_json (call : Call) : call.json.Unrepeated := by
  have string (text : String) : (Json.string text).Unrepeated := .scalar rfl
  cases call with
  | paragraph content => exact .object (by simp) (by simp [string])
  | heading level content =>
      have props : (Json.object [("level", .ofUInt32 level.toUInt32)]).Unrepeated :=
        .object (by simp) (by simpa using .scalar rfl)
      exact .object (by simp) (by simp [string, props])
  | block kind isInline items =>
      have array : (Json.array (items.map Item.json)).Unrepeated :=
        .array (by simpa using fun item _ => item.unrepeated_json)
      exact .object (by simp) (by simp [string, array])

/-! ### Calls that are refused -/

/-- The level of a heading is one of six. -/
def IsValid : Call → Prop
  | .heading level _ => 1 ≤ level ∧ level ≤ 6
  | .paragraph _ | .block .. => True

theorem contentKind_kind (call : Call) : call.kind.contentKind = .inline := by
  cases call with
  | paragraph | heading => rfl
  | block kind isInline => exact isInline

theorem violations_props (call : Call) :
    (PropOwner.block call.kind).violations call.props = [] ↔ call.IsValid := by
  cases call with
  | paragraph | block => exact ⟨fun _ => trivial, fun _ => rfl⟩
  | heading level content =>
      have holds : PropRule.headingLevel.holds (.ofUInt32 level.toUInt32) ↔
          1 ≤ level ∧ level ≤ 6 := by
        have least : (1 : UInt8).toNat = 1 := rfl
        have most : (6 : UInt8).toNat = 6 := rfl
        rw [Json.ofUInt32, Number.ofUInt32, PropRule.holds, UInt8.le_iff_toNat_le,
          UInt8.le_iff_toNat_le, least, most, UInt8.toNat_toUInt32]
        simp only [Bool.and_eq_true, decide_eq_true_eq]
        unfold maxHeadingLevel
        omega
      have only : (PropOwner.block .heading).violation? "level" (.ofUInt32 level.toUInt32) =
          if PropRule.headingLevel.holds (.ofUInt32 level.toUInt32) then none
          else some (.invalidProp (.block .heading) "level" .headingLevel) := rfl
      show ((PropOwner.block .heading).violation? "level" (.ofUInt32 level.toUInt32)).toList ++ [] =
        [] ↔ 1 ≤ level ∧ level ≤ 6
      rw [only, ← holds]
      split <;> simp [*]

theorem violations_made (call : Call) : call.made.violations = [] ↔ call.IsValid := by
  rw [← violations_props, Block.violations, made]
  simp [Content.violations, call.contentKind_kind]

theorem preorders_made (calls : List Call) : Block.preorders (calls.map made) = calls.map made := by
  induction calls with
  | nil => rw [List.map_nil, Block.preorders]
  | cons call calls ih =>
      rw [List.map_cons, Block.preorders, ih, made, Block.preorder, Block.preorders]
      rfl

theorem construct_made (store : String) (calls : List Call) :
    (∃ operations, construct store (calls.map made) = .ok operations) ↔
      ∀ call ∈ calls, call.IsValid := by
  rw [(construct_reports store _).ok_iff, preorders_made, List.flatMap_eq_nil_iff]
  simp [violations_made]

/-! ### Stored calls -/

/-- What a stored block shows of the call that it was built by. -/
structure Shown (call : Call) (view : BlockView) : Prop where
  kind : view.type = call.kind.name
  level : ∀ level content, call = .heading level content →
    view.props.get? "level" = some (.int level.toNat)
  childless : view.children = []
  content : ∃ text, view.content = some text ∧
    text.text = String.join (call.items.map Item.content) ∧
    ∀ position name value, Covered text.marks position name value ↔
      ∃ letter, (letters call.items)[position]? = some letter ∧ letter.2.mark? name = some value

theorem scalar_level (level : UInt8) :
    Scalar.ofJson? (.ofUInt32 level.toUInt32) = some (.int level.toNat) := by
  have small : (level.toUInt32.toNat : Int) < 0x8000000000000000 := by
    have := level.toUInt32.toNat_lt
    omega
  rw [Json.ofUInt32, Number.ofUInt32, Scalar.ofJson?, Scalar.ofNumber, if_pos small]
  rfl

theorem shown_of_stored {store : String} {path : List Nat} {call : Call} {view : BlockView}
    (stored : StoredBlock store path call.made view) : call.Shown view := by
  obtain ⟨known, -, kind, props, content, children⟩ := stored
  obtain ⟨_, _, _, text, widths, rows, _⟩ := view
  cases (BlockType.ofName?_name call.kind).symm.trans known
  refine ⟨kind, ?_, ?_, ?_⟩
  · rintro level said rfl
    have given : (heading level said).made.props.get? "level" = some (.ofUInt32 level.toUInt32) :=
      rfl
    have shown := props "level"
    rw [given, Option.some_or, Option.map_some] at shown
    obtain ⟨value, found, same⟩ := Option.map_eq_some_iff.mp shown
    rw [found, same, scalar_level]
  · cases children
    rfl
  · rw [call.contentKind_kind] at content
    cases content with
    | inline shown =>
        refine ⟨_, rfl, ?_, fun position name value => ?_⟩
        · rw [shown.text, call.toItems_inline, List.flatMap_map, List.map_flatMap]
          simp only [Item.texts_inline, ← List.map_eq_flatMap]
        · rw [shown.marks, styledChars_letters call.toItems_inline, List.getElem?_map]
          simp [Item.mark?_styledChar]

theorem shown_of_storedBlocks {store : String} {path : List Nat} {index : Nat} {calls : List Call}
    {views : List BlockView} (stored : StoredBlocks store path index (calls.map made) views) :
    List.Forall₂ Shown calls views := by
  induction calls generalizing index views with
  | nil =>
      cases stored
      exact .nil
  | cons call calls ih =>
      cases stored with
      | cons first rest => exact .cons (shown_of_stored first) (ih rest)

theorem shown_of_construct {store : String} {calls : List Call} {operations : List Operation}
    (constructed : construct store (calls.map made) = .ok operations) :
    ∃ views, readBlocks? operations store = some views ∧ List.Forall₂ Shown calls views := by
  obtain ⟨views, read, stored⟩ := storedBlocks_of_construct constructed
  exact ⟨views, read, shown_of_storedBlocks stored⟩

end Call

end BlockScribe.Sample
