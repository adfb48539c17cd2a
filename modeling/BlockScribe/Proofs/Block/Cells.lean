import BlockScribe.Proofs.Block.Violations

/-!
# Cells of tables

The shapes that the cells of a table are meant to have, and the shapes that are
taken for cells as well.  An object is a cell whatever type it names, so that a run
or a link in the place of a cell is a cell without text.  A list that is no inline
content is a cell if it can be the fields of one, so that the node at its head is
the props.  No other value is a cell, and one that is none spoils its table.
-/

namespace BlockScribe

/-! ## Shapes of cells -/

namespace Cell

def contentOfJson? : Option Json → Option Inline
  | none => some .empty
  | some value => Inline.ofJson? value

/-- The props and the content of a cell as an object has them; what else it has is left out. -/
def MadeOf (members : List (String × Json)) (cell : Cell) : Prop :=
  ∃ props content, (Json.soleMember members "props").bind propsOfJson? = some props ∧
    (Json.soleMember members "content").bind contentOfJson? = some content ∧
    cell = .full props content

/-- A text, a list of inline items, or an object that names no type but that of cells. -/
inductive Grammatical : Json → Cell → Prop
  | text (text : String) : Grammatical (.string text) (.bare (.text text))
  | items {values : List Json} {items : List InlineItem}
      (valid : values.mapM InlineItem.ofJson? = some items) :
      Grammatical (.array values) (.bare (.items items))
  | record {members : List (String × Json)} {cell : Cell}
      (tagged : ∀ tag, ("type", tag) ∈ members → tag = .string PropOwner.cell.name)
      (made : MadeOf members cell) : Grammatical (.object members) cell

/-- An object of another type, or the fields of a cell in a list that is no inline content. -/
inductive Stray : Json → Cell → Prop
  | otherType {members : List (String × Json)} {cell : Cell} {tag : Json}
      (tagged : ("type", tag) ∈ members) (other : tag ≠ .string PropOwner.cell.name)
      (made : MadeOf members cell) : Stray (.object members) cell
  | props {members : List (String × Json)}
      (invalid : Inline.ofJson? (.array [.object members]) = none) :
      Stray (.array [.object members]) (.full (Json.memberMap members) .empty)
  | propsAndContent {members : List (String × Json)} {second : Json} {content : Inline}
      (invalid : Inline.ofJson? (.array [.object members, second]) = none)
      (taken : Inline.ofJson? second = some content) :
      Stray (.array [.object members, second]) (.full (Json.memberMap members) content)

theorem Stray.not_grammatical {written : Json} {cell : Cell} (stray : Stray written cell)
    (other : Cell) : ¬ Grammatical written other := by
  intro grammatical
  cases stray with
  | otherType tagged other =>
      cases grammatical with
      | record only => exact other (only _ tagged)
  | props invalid =>
      cases grammatical with
      | items valid => simp [Inline.ofJson?, valid] at invalid
  | propsAndContent invalid =>
      cases grammatical with
      | items valid => simp [Inline.ofJson?, valid] at invalid

/-! ## Reading cells -/

def ofFields? (props content : Option Json) : Option Cell := do
  let props ← propsOfJson? props
  let content ← contentOfJson? content
  return .full props content

theorem fullOfJson?_of_fields {value : Json} {props content : Option Json}
    (fields : value.fields? ["props", "content"] = some [props, content]) :
    fullOfJson? value = ofFields? props content := by
  cases content <;> simp [fullOfJson?, ofFields?, contentOfJson?, fields]

theorem ofFields?_eq_some {props content : Option Json} {cell : Cell} :
    ofFields? props content = some cell ↔
      ∃ given found, propsOfJson? props = some given ∧
        contentOfJson? content = some found ∧ cell = .full given found := by
  simp [ofFields?, Option.bind_eq_some_iff, eq_comm (a := cell)]

theorem fullOfJson?_object {members : List (String × Json)} {cell : Cell} :
    fullOfJson? (.object members) = some cell ↔ MadeOf members cell := by
  cases props : Json.soleMember members "props" with
  | none => simp [fullOfJson?, Json.fields?, MadeOf, props]
  | some given =>
      cases content : Json.soleMember members "content" with
      | none => simp [fullOfJson?, Json.fields?, MadeOf, props, content]
      | some found =>
          have fields : (Json.object members).fields? ["props", "content"] =
              some [given, found] := by
            simp [Json.fields?, props, content]
          rw [fullOfJson?_of_fields fields, ofFields?_eq_some]
          simp [MadeOf, props, content]

theorem propsOfJson?_eq_some {value : Json} {props : SortedMap Json} :
    propsOfJson? (some value) = some props ↔
      ∃ members, value = .object members ∧ props = Json.memberMap members := by
  cases value <;> simp [propsOfJson?, eq_comm]

theorem fullOfJson?_array {values : List Json} {cell : Cell}
    (invalid : Inline.ofJson? (.array values) = none) :
    fullOfJson? (.array values) = some cell ↔ Stray (.array values) cell := by
  match values with
  | [] => simp [Inline.ofJson?] at invalid
  | [first] =>
      have read : fullOfJson? (.array [first]) = ofFields? (some first) none :=
        fullOfJson?_of_fields rfl
      simp only [read, ofFields?_eq_some, propsOfJson?_eq_some]
      constructor
      · rintro ⟨_, _, ⟨members, rfl, rfl⟩, ⟨⟩, rfl⟩
        exact .props invalid
      · rintro ⟨⟩
        exact ⟨_, _, ⟨_, rfl, rfl⟩, rfl, rfl⟩
  | [first, second] =>
      have read : fullOfJson? (.array [first, second]) = ofFields? (some first) (some second) :=
        fullOfJson?_of_fields rfl
      simp only [read, ofFields?_eq_some, propsOfJson?_eq_some]
      constructor
      · rintro ⟨_, content, ⟨members, rfl, rfl⟩, taken, rfl⟩
        exact .propsAndContent invalid taken
      · intro stray
        cases stray with
        | propsAndContent _ taken => exact ⟨_, _, ⟨_, rfl, rfl⟩, taken, rfl⟩
  | first :: second :: third :: more =>
      have tooMany : (Json.array (first :: second :: third :: more)).fields?
          ["props", "content"] = none := by
        simp [Json.fields?]
      simp only [fullOfJson?, tooMany]
      constructor
      · rintro ⟨⟩
      · rintro ⟨⟩

theorem grammatical_array {values : List Json} {cell : Cell} :
    Grammatical (.array values) cell ↔
      ∃ items, values.mapM InlineItem.ofJson? = some items ∧ cell = .bare (.items items) := by
  constructor
  · rintro ⟨⟩
    exact ⟨_, ‹_›, rfl⟩
  · rintro ⟨items, valid, rfl⟩
    exact .items valid

theorem grammatical_or_stray_object {members : List (String × Json)} {cell : Cell} :
    Grammatical (.object members) cell ∨ Stray (.object members) cell ↔ MadeOf members cell := by
  constructor
  · rintro (grammatical | stray)
    · cases grammatical with
      | record _ made => exact made
    · cases stray with
      | otherType _ _ made => exact made
  · intro made
    by_cases tagged : ∀ tag, ("type", tag) ∈ members → tag = .string PropOwner.cell.name
    · exact .inl (.record tagged made)
    · push Not at tagged
      obtain ⟨tag, there, other⟩ := tagged
      exact .inr (.otherType there other made)

/-- A value is read as a cell if it has a shape of a cell or one that is taken for a cell. -/
theorem ofJson?_iff {value : Json} {cell : Cell} :
    ofJson? value = some cell ↔ Grammatical value cell ∨ Stray value cell := by
  have refused {value : Json} (inline : Inline.ofJson? value = none) :
      ofJson? value = some cell ↔ fullOfJson? value = some cell := by
    rw [ofJson?, inline]
  cases value with
  | string text =>
      have read : ofJson? (.string text) = some (.bare (.text text)) := rfl
      rw [read]
      constructor
      · rintro ⟨⟩
        exact .inl (.text text)
      · rintro (grammatical | stray)
        · cases grammatical with
          | text => rfl
        · cases stray
  | array values =>
      cases inline : values.mapM InlineItem.ofJson? with
      | some items =>
          have regular : ¬ Stray (.array values) cell :=
            fun stray => stray.not_grammatical _ (.items inline)
          simp [ofJson?, Inline.ofJson?, inline, grammatical_array, regular, eq_comm]
      | none =>
          have invalid : Inline.ofJson? (.array values) = none := by
            simp [Inline.ofJson?, inline]
          simp [refused invalid, fullOfJson?_array invalid, grammatical_array, inline]
  | object members =>
      rw [refused rfl, fullOfJson?_object, grammatical_or_stray_object]
  | null | bool _ | number _ =>
      rw [refused rfl]
      constructor
      · rintro ⟨⟩
      · rintro (grammatical | stray)
        · cases grammatical
        · cases stray

end Cell

/-! ## Reading tables -/

namespace Table

def rowWritten? (value : Json) : Option (List Json) := do
  match ← value.fields? ["cells"] with
  | [none] => some []
  | [some cells] => cells.array?
  | _ => none

/-- The cells of a table as they are written, row by row. -/
def written? (value : Json) : Option (List (List Json)) := do
  match ← value.fields? ["columnWidths", "rows"] with
  | [_, some rows] => (← rows.array?).mapM rowWritten?
  | _ => none

theorem rowOfJson?_eq (value : Json) :
    rowOfJson? value = (rowWritten? value).bind (·.mapM Cell.ofJson?) := by
  rw [rowOfJson?, rowWritten?]
  cases value.fields? ["cells"] with
  | none => rfl
  | some fields =>
      rcases fields with _ | ⟨_ | cells, _ | _⟩ <;> rfl

theorem mapM_rowOfJson? {rows : List Json} {cells : List (List Cell)}
    (read : rows.mapM rowOfJson? = some cells) :
    ∃ written, rows.mapM rowWritten? = some written ∧
      List.Forall₂ (List.Forall₂ fun value cell => Cell.ofJson? value = some cell)
        written cells := by
  induction rows generalizing cells with
  | nil =>
      cases read
      exact ⟨[], rfl, .nil⟩
  | cons row rows ih =>
      simp only [List.mapM_cons, rowOfJson?_eq, Option.bind_eq_bind,
        Option.bind_eq_some_iff] at read
      obtain ⟨first, ⟨values, found, taken⟩, later, rest, made⟩ := read
      cases made
      obtain ⟨written, listed, paired⟩ := ih rest
      exact ⟨values :: written, by simp [found, listed],
        .cons (forall₂_of_mapM_eq_some taken) paired⟩

theorem exists_written {value : Json} {table : Table} (read : ofJson? value = some table) :
    ∃ rows, written? value = some rows ∧
      List.Forall₂ (List.Forall₂ fun written cell => Cell.ofJson? written = some cell)
        rows table.rows := by
  obtain ⟨fields, given, read⟩ := Option.bind_eq_some_iff.mp read
  rcases fields with _ | ⟨widths, _ | ⟨_ | rows, _ | _⟩⟩
  case cons.cons.some.nil =>
    have taken : ∃ items, rows.array? = some items ∧
        items.mapM rowOfJson? = some table.rows := by
      cases widths with
      | none =>
          simp only [Option.bind_eq_bind, Option.bind_some, Option.bind_eq_some_iff] at read
          obtain ⟨items, listed, cells, taken, made⟩ := read
          cases made
          exact ⟨items, listed, taken⟩
      | some widths =>
          simp only [Option.bind_eq_bind, Option.bind_eq_some_iff] at read
          obtain ⟨_, -, _, -, items, listed, cells, taken, made⟩ := read
          cases made
          exact ⟨items, listed, taken⟩
    obtain ⟨items, listed, taken⟩ := taken
    obtain ⟨written, found, paired⟩ := mapM_rowOfJson? taken
    exact ⟨written, by simp [written?, given, listed, found], paired⟩
  all_goals cases read

theorem nodeTag_of_rowWritten {row : Json} {cells : List Json}
    (written : rowWritten? row = some cells) : NodeTag.ofJson? row = none := by
  cases row with
  | null | bool _ | array _ | object _ => rfl
  | number _ | string _ => cases written

/-- A list of rows is no node, since a row is no tag of one. -/
theorem inlineItem_of_rowsWritten {items : List Json} {rows : List (List Json)}
    (written : items.mapM rowWritten? = some rows) :
    InlineItem.ofJson? (.array items) = none := by
  cases items with
  | nil => rfl
  | cons row items =>
      simp only [List.mapM_cons, Option.bind_eq_bind, Option.bind_eq_some_iff] at written
      obtain ⟨cells, first, -⟩ := written
      simp [InlineItem.ofJson?, taggedRecord?, nodeTag_of_rowWritten first]

/-- A value that has rows is no inline content. -/
theorem inline_of_written {value : Json} {rows : List (List Json)}
    (written : written? value = some rows) : Inline.ofJson? value = none := by
  cases value with
  | null | bool _ | number _ | object _ => rfl
  | string => cases written
  | array values =>
      match values with
      | [] | [_] | _ :: _ :: _ :: _ => cases written
      | [widths, listed] =>
          obtain ⟨items, given, written⟩ := Option.bind_eq_some_iff.mp written
          cases listed with
          | array _ =>
              cases given
              simp [Inline.ofJson?, inlineItem_of_rowsWritten written]
          | null | bool _ | number _ | string _ | object _ => cases given

/-- A cell that is none spoils the table it is written in. -/
theorem ofJson?_of_refused {value written : Json} {rows : List (List Json)} {row : List Json}
    (found : written? value = some rows) (listed : row ∈ rows) (there : written ∈ row)
    (refused : Cell.ofJson? written = none) : ofJson? value = none := by
  rw [Option.eq_none_iff_forall_ne_some]
  intro table read
  obtain ⟨rows', found', paired⟩ := exists_written read
  cases found.symm.trans found'
  obtain ⟨cells, pairedRow⟩ := exists_of_forall₂ paired listed
  obtain ⟨cell, taken⟩ := exists_of_forall₂ pairedRow there
  simp [refused] at taken

end Table

/-! ## Content -/

theorem Content.table_of_ofJson {value : Json} {table : Table}
    (read : ofJson value = .table table) : Table.ofJson? value = some table := by
  cases inline : Inline.ofJson? value with
  | some => simp [ofJson, inline] at read
  | none =>
      cases found : Table.ofJson? value with
      | none => simp [ofJson, inline, found] at read
      | some => simpa [ofJson, inline, found] using read

/--
The cells of a table all have a shape of cells, or else one that is taken for a
cell.  A cell with none of these makes the whole content malformed, and this is
reported on the block unless there is a violation before it.  The shapes that are
taken for cells are none of the shapes of cells, and still they are read.
-/
theorem Content.ofJson_cells (value : Json) :
    (∀ table, ofJson value = .table table → ∃ rows, Table.written? value = some rows ∧
      List.Forall₂ (List.Forall₂ fun written cell =>
        Cell.Grammatical written cell ∨ Cell.Stray written cell) rows table.rows) ∧
    (∀ rows, Table.written? value = some rows → ∀ row ∈ rows, ∀ written ∈ row,
      (∀ cell, ¬ Cell.Grammatical written cell ∧ ¬ Cell.Stray written cell) →
        ofJson value = .malformed value.canonical ∧
        ∀ store blocks before block after type,
          Block.preorders blocks = before ++ block :: after →
          BlockType.ofName? block.type = some type → block.content = some (ofJson value) →
          construct store blocks = .error
            ((before.flatMap Block.violations ++
              (PropOwner.block type).violations block.props).headD (.malformedContent type))) ∧
    ∀ written cell, Cell.Stray written cell →
      Cell.ofJson? written = some cell ∧ ∀ other, ¬ Cell.Grammatical written other := by
  refine ⟨fun table read => ?_, fun rows found row listed written there shapeless => ?_,
    fun written cell stray => ⟨Cell.ofJson?_iff.mpr (.inr stray), stray.not_grammatical⟩⟩
  · obtain ⟨rows, found, paired⟩ := Table.exists_written (table_of_ofJson read)
    refine ⟨rows, found, paired.imp fun row cells pairedRow => ?_⟩
    exact pairedRow.imp fun written cell taken => Cell.ofJson?_iff.mp taken
  · have refused : Cell.ofJson? written = none := by
      rw [Option.eq_none_iff_forall_ne_some]
      intro cell taken
      have shaped := Cell.ofJson?_iff.mp taken
      simp [shapeless cell] at shaped
    have malformed : ofJson value = .malformed value.canonical := by
      rw [ofJson, Table.inline_of_written found,
        Table.ofJson?_of_refused found listed there refused]
    refine ⟨malformed, fun store blocks before block after type cut known content => ?_⟩
    exact construct_malformed store cut known (content.trans (congrArg some malformed))

/-- A text in the place of a cell is lost, and a node that is none becomes the props of a cell. -/
theorem Content.ofJson_cells_stray :
    let run := Json.object [("type", .string "text"), ("text", .string "lost")]
    let node := Json.object [("type", .string "mention"), ("user", .string "x")]
    let row := Json.object [("cells", .array [run, .array [node]])]
    let value := Json.object [("type", .string "tableContent"), ("rows", .array [row])]
    Table.written? value = some [[run, .array [node]]] ∧
      (∃ table, ofJson value = .table table ∧ table.rows = [[.full .empty (.text ""),
        .full (.ofList [("type", .string "mention"), ("user", .string "x")]) (.text "")]]) ∧
      ∀ cell, ¬ Cell.Grammatical run cell ∧ ¬ Cell.Grammatical (.array [node]) cell := by
  intro run node row value
  have lost : Cell.Stray run (.full .empty (.text "")) :=
    .otherType List.mem_cons_self (by simp [PropOwner.name]) ⟨_, _, rfl, rfl, rfl⟩
  have moved : Cell.Stray (.array [node]) _ := .props rfl
  refine ⟨rfl, ⟨⟨[], _⟩, rfl, rfl⟩, fun cell => ?_⟩
  exact ⟨lost.not_grammatical cell, moved.not_grammatical cell⟩

end BlockScribe
